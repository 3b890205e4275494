import BlinkDb.Model.Resp
import BlinkDb.Analysis.Lexing

/-!
# `parse` reads back what `encode` writes

For every value the factories build whose simple strings and errors hold no `"\r\n"`, and
whose bulk-string lengths and array counts fit the `int` of `std::stoi` (`encodable`):

* `parse (encode v ++ s)` is `v` with `(encode v).length` bytes consumed, for every `s`;
* `parse p` is `std::nullopt`, without a throw, for every proper prefix `p` of `encode v`.

Both are proved with any fuel above the length of the input (`parseAt_encode_append`,
`parseAt_cut`), by induction on the fuel, so the nested arrays need no induction on the
value. The step cases read each encoding as a type byte, a line that holds no `"\r\n"`, and
the rest (`findCRLF_line`, `lineAt_line`); a proper prefix is empty, stops before the line's
`'\n'` (`findCRLF_cut`), or holds the line and a proper prefix of the rest
(`proper_prefix_cases`). Binary payloads may hold `"\r\n"`: the parser finds the header's
line end first, and takes the payload by its length.

`parse_ne_outOfFuel` shows that the fuel of `parse` never runs out, on any input.
-/

set_option autoImplicit false

namespace BlinkDb

/-- INTERNAL: a prefix of `a ++ b` is a prefix of `a`, or `a` followed by a prefix of `b`. -/
theorem prefix_append_cases {α : Type} {a b q : List α} (h : q <+: a ++ b) :
    q <+: a ∨ ∃ r, q = a ++ r ∧ r <+: b := by
  obtain ⟨t, ht⟩ := h
  rcases List.append_eq_append_iff.1 ht with ⟨a', rfl, -⟩ | ⟨c', rfl, rfl⟩
  · exact .inl (List.prefix_append _ _)
  · exact .inr ⟨c', rfl, List.prefix_append _ _⟩

namespace RespProtocol

/-! ## Header lines -/

/-- INTERNAL: a prefix of a line and what follows it stops before the line's `'\n'`, or holds
the whole line. -/
theorem prefix_line_cases {line rest q : Bytes} (h : q <+: line ++ crlf ++ rest) :
    q <+: line ++ [13] ∨ ∃ r, q = line ++ crlf ++ r ∧ r <+: rest := by
  rcases prefix_append_cases h with h1 | h2
  · rcases prefix_append_cases (show q <+: (line ++ [13]) ++ [10] by simpa [crlf] using h1)
      with h3 | ⟨r, rfl, hr⟩
    · exact .inl h3
    · rcases r with _ | ⟨x, _ | ⟨y, r⟩⟩
      · exact .inl (by simp)
      · obtain rfl : x = 10 := by simpa using hr
        exact .inr ⟨[], by simp [crlf], List.nil_prefix⟩
      · simpa using hr.length_le
  · exact .inr h2

/-- INTERNAL: `findCRLF` finds the end of a line that holds no `"\r\n"`. -/
theorem findCRLF_line {line : Bytes} (h : ¬ crlf <:+: line) (t : UInt8) (rest : Bytes) :
    findCRLF (t :: (line ++ crlf ++ rest)) 1 = some (line.length + 1) := by
  rw [findCRLF, if_neg (by simp [crlf]), List.drop_one, List.tail_cons, findFrom_append_crlf h,
    Nat.add_comm]

/-- INTERNAL: before the line's `'\n'` has arrived, `findCRLF` finds nothing. -/
theorem findCRLF_cut {line q : Bytes} (h : ¬ crlf <:+: line) (hq : q <+: line ++ [13]) (t : UInt8) :
    findCRLF (t :: q) 1 = none := by
  unfold findCRLF
  split
  · rfl
  · rw [List.drop_one, List.tail_cons]
    exact findFrom_eq_none (by simp [crlf])
      (fun hi => not_crlf_infix_append_cr h (hi.trans hq.isInfix)) 1

/-- INTERNAL: `data.substr(1, crlf_pos - 1)` is the line. -/
theorem lineAt_line (t : UInt8) (line rest : Bytes) :
    lineAt (t :: (line ++ crlf ++ rest)) (line.length + 1) = line := by
  simp [lineAt, List.append_assoc]

/-! ## The header of each encoding -/

/-- INTERNAL: `std::to_string` writes no `'\r'`. -/
theorem not_crlf_infix_toDecimal (n : Nat) : ¬ crlf <:+: toDecimal n :=
  not_crlf_infix_of_not_mem (not_mem_toDecimal n)

/-- INTERNAL: nor does it for a signed value. -/
theorem not_crlf_infix_toDecimalInt (i : Int) : ¬ crlf <:+: toDecimalInt i := by
  unfold toDecimalInt
  split
  · exact not_crlf_infix_of_not_mem fun h => by
      rcases List.mem_cons.1 h with h | h
      · exact absurd h (by decide)
      · exact absurd ((toDecimal_spec _).2.1 13 h) (by decide)
  · exact not_crlf_infix_toDecimal _

/-- INTERNAL: an `int64_t` as an integer lies in the range `std::stoll` reads. -/
theorem toInt_mem_range (x : BitVec 64) :
    -9223372036854775808 ≤ x.toInt ∧ x.toInt < 9223372036854775808 := by
  have := x.isLt
  rw [BitVec.toInt_eq_toNat_cond]
  split <;> omega

/-- INTERNAL: converting the value read back to `int64_t` gives the value written. -/
theorem ofInt_toInt (x : BitVec 64) : BitVec.ofInt 64 x.toInt = x := by
  apply BitVec.eq_of_toInt_eq
  rw [BitVec.toInt_ofInt, BitVec.toInt_eq_toNat_bmod, Int.bmod_bmod]

section Shapes
variable (s : Bytes)

/-- INTERNAL: the shape of a simple string's encoding before further bytes. -/
theorem encodeSimpleString_append (v : Bytes) :
    encodeSimpleString v ++ s = 43 :: (v ++ crlf ++ s) := by simp [encodeSimpleString]
/-- INTERNAL: the shape of an error's encoding before further bytes. -/
theorem encodeError_append (v : Bytes) : encodeError v ++ s = 45 :: (v ++ crlf ++ s) := by
  simp [encodeError]
/-- INTERNAL: the shape of an integer's encoding before further bytes. -/
theorem encodeInteger_append (x : BitVec 64) :
    encodeInteger x ++ s = 58 :: (toDecimalInt x.toInt ++ crlf ++ s) := by simp [encodeInteger]
/-- INTERNAL: the shape of a bulk string's encoding before further bytes. -/
theorem encodeBulkString_append (v : Bytes) :
    encodeBulkString v ++ s = 36 :: (toDecimal v.length ++ crlf ++ (v ++ crlf ++ s)) := by
  simp [encodeBulkString]
/-- INTERNAL: the shape of the null bulk string's encoding before further bytes. -/
theorem encodeNullBulkString_append : encodeNullBulkString ++ s = 36 :: ([45, 49] ++ crlf ++ s) := rfl
/-- INTERNAL: the shape of the null array's encoding before further bytes. -/
theorem encodeNullArray_append : encodeNullArray ++ s = 42 :: ([45, 49] ++ crlf ++ s) := rfl
/-- INTERNAL: the shape of an array's encoding before further bytes. -/
theorem encodeArray_append (vs : List RespValue) :
    encodeArray vs ++ s = 42 :: (toDecimal vs.length ++ crlf ++ (encodeElements vs ++ s)) := by
  simp [encodeArray]

end Shapes

/-! ## The dispatch of `parse` -/

section Dispatch
variable (fuel : Nat) (d : Bytes)

/-- INTERNAL: `parse` hands a `'+'` to `parseSimpleString`. -/
theorem parseAt_simpleString : parseAt (fuel + 1) (43 :: d) = parseSimpleString (43 :: d) := rfl
/-- INTERNAL: `parse` hands a `'-'` to `parseError`. -/
theorem parseAt_error : parseAt (fuel + 1) (45 :: d) = parseError (45 :: d) := rfl
/-- INTERNAL: `parse` hands a `':'` to `parseInteger`. -/
theorem parseAt_integer : parseAt (fuel + 1) (58 :: d) = parseInteger (58 :: d) := rfl
/-- INTERNAL: `parse` hands a `'$'` to `parseBulkString`. -/
theorem parseAt_bulkString : parseAt (fuel + 1) (36 :: d) = parseBulkString (36 :: d) := rfl
/-- INTERNAL: `parse` hands a `'*'` to `parseArray`, whose elements get one round of fuel less. -/
theorem parseAt_array : parseAt (fuel + 1) (42 :: d) = parseArray (parseAt fuel) (42 :: d) := rfl

end Dispatch

/-! ## Each parser on a whole encoding -/

section Whole
variable (t : UInt8) (rest : Bytes)

/-- INTERNAL: `parseSimpleString` reads back a line without `"\r\n"`, whatever follows it. -/
theorem parseSimpleString_line {line : Bytes} (h : ¬ crlf <:+: line) :
    parseSimpleString (t :: (line ++ crlf ++ rest)) =
      .ok (some (.simpleString line, line.length + 1 + 2)) := by
  simp only [parseSimpleString, findCRLF_line h, lineAt_line]

/-- INTERNAL: `parseError` reads back a line without `"\r\n"`, whatever follows it. -/
theorem parseError_line {line : Bytes} (h : ¬ crlf <:+: line) :
    parseError (t :: (line ++ crlf ++ rest)) = .ok (some (.error line, line.length + 1 + 2)) := by
  simp only [parseError, findCRLF_line h, lineAt_line]

/-- INTERNAL: `parseInteger` reads back the numeral `std::to_string` wrote for a 64-bit integer. -/
theorem parseInteger_line (x : BitVec 64) :
    parseInteger (t :: (toDecimalInt x.toInt ++ crlf ++ rest)) =
      .ok (some (.integer x, (toDecimalInt x.toInt).length + 1 + 2)) := by
  simp only [parseInteger, findCRLF_line (not_crlf_infix_toDecimalInt _), lineAt_line,
    stoll_toDecimalInt (toInt_mem_range x).1 (toInt_mem_range x).2, ofInt_toInt]

/-- `parseBulkString` takes the payload by its length, and does not look at the two bytes after
it. -/
theorem parseBulkString_payload {v : Bytes} (hv : v.length < 2147483648) (x y : UInt8) :
    parseBulkString (t :: (toDecimal v.length ++ crlf ++ (v ++ [x, y] ++ rest))) =
      .ok (some (.bulkString v, (toDecimal v.length).length + 1 + 2 + v.length + 2)) := by
  simp only [parseBulkString, findCRLF_line (not_crlf_infix_toDecimal _), lineAt_line,
    stoi_toDecimal hv]
  rw [if_neg (by omega), if_neg (by omega)]
  simp only [List.length_cons, List.length_append, crlf, List.length_nil]
  rw [if_neg (by omega)]
  simp [rethrow, crlf]

/-- INTERNAL: `parseBulkString` reads back a whole bulk string shorter than `2^31` bytes. -/
theorem parseBulkString_line {v : Bytes} (hv : v.length < 2147483648) :
    parseBulkString (t :: (toDecimal v.length ++ crlf ++ (v ++ crlf ++ rest))) =
      .ok (some (.bulkString v, (toDecimal v.length).length + 1 + 2 + v.length + 2)) :=
  parseBulkString_payload t rest hv 13 10

/-- INTERNAL: `parseBulkString` reads `"$-1\r\n"` as the null bulk string. -/
theorem parseBulkString_null :
    parseBulkString (t :: ([45, 49] ++ crlf ++ rest)) = .ok (some (.nullBulkString, 2 + 1 + 2)) := by
  simp only [parseBulkString, @findCRLF_line [45, 49] (by decide), lineAt_line]
  rfl

/-- INTERNAL: `parseArray` reads `"*-1\r\n"` as the null array. -/
theorem parseArray_null (p : Bytes → ParseResult RespValue) :
    parseArray p (t :: ([45, 49] ++ crlf ++ rest)) = .ok (some (.nullArray, 2 + 1 + 2)) := by
  simp only [parseArray, @findCRLF_line [45, 49] (by decide), lineAt_line]
  rfl

end Whole

/-! ## The values `parse` reads back -/

mutual

/-- The values whose encodings `parse` reads back: no `"\r\n"` in the text of a simple string
or an error, and every bulk-string length and array count below `2^31`, in the range of the
`int` that `std::stoi` returns. -/
def encodable : RespValue → Bool
  | .simpleString v => decide (¬ crlf <:+: v)
  | .error v => decide (¬ crlf <:+: v)
  | .integer _ => true
  | .bulkString v => decide (v.length < 2147483648)
  | .nullBulkString => true
  | .array vs => decide (vs.length < 2147483648) && encodableAll vs
  | .nullArray => true

/-- `encodable` for every value of a list. -/
def encodableAll : List RespValue → Bool
  | [] => true
  | v :: vs => encodable v && encodableAll vs

end

/-- INTERNAL: `encodableAll` is `encodable` of each element. -/
theorem encodableAll_iff (vs : List RespValue) :
    encodableAll vs = true ↔ ∀ v ∈ vs, encodable v = true := by
  induction vs with
  | nil => simp [encodableAll]
  | cons v vs ih => simp [encodableAll, ih]

/-- INTERNAL: every encoding holds at least its type byte. -/
theorem encode_ne_nil (v : RespValue) : encode v ≠ [] := by
  cases v <;> simp [encode, encodeSimpleString, encodeError, encodeInteger, encodeBulkString,
    encodeNullBulkString, encodeNullArray, encodeArray]

/-- INTERNAL: an element's encoding is no longer than the encoding of the elements it is among. -/
theorem length_encode_le {vs : List RespValue} {v : RespValue} (h : v ∈ vs) :
    (encode v).length ≤ (encodeElements vs).length := by
  induction vs with
  | nil => simp at h
  | cons w vs ih =>
    rcases List.mem_cons.1 h with rfl | h
    · simp [encodeElements]
    · have := ih h; simp [encodeElements]; omega

/-- INTERNAL: the loop of `parseArray` reads back the elements, whatever follows them. -/
theorem parseElements_encode {p : Bytes → ParseResult RespValue} :
    ∀ vs : List RespValue, (∀ v ∈ vs, ∀ s, p (encode v ++ s) = .ok (some (v, (encode v).length))) →
    ∀ (data : Bytes) (pos : Nat) (s : Bytes), data.drop pos = encodeElements vs ++ s →
      parseElements p data vs.length pos = .ok (some (vs, pos + (encodeElements vs).length))
  | [], _, _, pos, _, _ => by simp [parseElements, encodeElements]
  | v :: vs, hp, data, pos, s, hd => by
    have hlen : ¬ data.length ≤ pos := fun h => encode_ne_nil v
      (by simpa [List.drop_eq_nil_of_le h, encodeElements] using hd : encode v = [] ∧ _ ∧ _).1
    have hrest : data.drop (pos + (encode v).length) = encodeElements vs ++ s := by
      rw [← List.drop_drop, hd]; simp [encodeElements]
    rw [List.length_cons, parseElements, if_neg hlen, hd, encodeElements, List.append_assoc,
      hp v (List.mem_cons_self _ _)]
    simp only
    rw [parseElements_encode vs (fun w hw => hp w (List.mem_cons_of_mem _ hw)) data _ s hrest]
    simp [Nat.add_assoc]

/-- INTERNAL: `parseArray` reads back an array of fewer than `2^31` elements, each of which its
element parser reads back. -/
theorem parseArray_line (p : Bytes → ParseResult RespValue) {vs : List RespValue}
    (hn : vs.length < 2147483648)
    (hp : ∀ v ∈ vs, ∀ s, p (encode v ++ s) = .ok (some (v, (encode v).length))) (t : UInt8)
    (rest : Bytes) :
    parseArray p (t :: (toDecimal vs.length ++ crlf ++ (encodeElements vs ++ rest))) =
      .ok (some (.array vs, (toDecimal vs.length).length + 1 + 2 + (encodeElements vs).length)) := by
  simp only [parseArray, findCRLF_line (not_crlf_infix_toDecimal _), lineAt_line,
    stoi_toDecimal hn]
  rw [if_neg (by omega), if_neg (by omega), Int.toNat_ofNat,
    parseElements_encode vs hp _ _ rest (by simp [crlf])]
  rfl

/-! ## Round trip -/

/-- `parse` with enough fuel reads an encoding back, whatever follows it. -/
theorem parseAt_encode_append : ∀ (fuel : Nat) (v : RespValue), encodable v = true →
    (encode v).length < fuel → ∀ s, parseAt fuel (encode v ++ s) = .ok (some (v, (encode v).length))
  | 0, _, _, h, _ => absurd h (Nat.not_lt_zero _)
  | fuel + 1, v, hv, hl, s => by
    cases v with
    | simpleString w =>
      rw [encode, encodeSimpleString_append, parseAt_simpleString,
        parseSimpleString_line _ _ (by simpa [encodable] using hv)]
      simp [encodeSimpleString, crlf]
    | error w =>
      rw [encode, encodeError_append, parseAt_error, parseError_line _ _ (by simpa [encodable] using hv)]
      simp [encodeError, crlf]
    | integer x =>
      rw [encode, encodeInteger_append, parseAt_integer, parseInteger_line]
      simp [encodeInteger, crlf]
    | bulkString w =>
      rw [encode, encodeBulkString_append, parseAt_bulkString,
        parseBulkString_line _ _ (by simpa [encodable] using hv)]
      simp [encodeBulkString, crlf]; omega
    | nullBulkString =>
      rw [encode, encodeNullBulkString_append, parseAt_bulkString, parseBulkString_null]; rfl
    | array vs =>
      simp only [encodable, Bool.and_eq_true, decide_eq_true_eq, encodableAll_iff] at hv
      have hp : ∀ v ∈ vs, ∀ s, parseAt fuel (encode v ++ s) = .ok (some (v, (encode v).length)) :=
        fun v hm => parseAt_encode_append fuel v (hv.2 v hm) (by
          have := length_encode_le hm
          simp [encodeArray, crlf] at hl; omega)
      rw [encode_array, encodeArray_append, parseAt_array, parseArray_line _ hv.1 hp]
      simp [encodeArray, crlf]; omega
    | nullArray =>
      rw [encode, encodeNullArray_append, parseAt_array, parseArray_null]; rfl

/-! ## Cut encodings -/

/-- INTERNAL: a proper prefix of a line and what follows it is empty, stops inside the line,
or holds the line and a proper prefix of the rest. -/
theorem proper_prefix_cases {t : UInt8} {line rest q : Bytes}
    (hq : q <+: t :: (line ++ crlf ++ rest)) (hlt : q.length < (line ++ crlf ++ rest).length + 1) :
    q = [] ∨ (∃ q', q = t :: q' ∧ q' <+: line ++ [13]) ∨
      ∃ r, q = t :: (line ++ crlf ++ r) ∧ r <+: rest ∧ r.length < rest.length := by
  rcases q with _ | ⟨t', q⟩
  · exact .inl rfl
  obtain ⟨rfl, hq'⟩ := List.cons_prefix_cons.1 hq
  rcases prefix_line_cases hq' with h | ⟨r, rfl, hr⟩
  · exact .inr (.inl ⟨q, rfl, h⟩)
  · exact .inr (.inr ⟨r, rfl, hr, by simp at hlt; omega⟩)

/-- INTERNAL: the loop of `parseArray` needs more bytes on a proper prefix of the elements. -/
theorem parseElements_cut {p : Bytes → ParseResult RespValue} {B : Nat} :
    ∀ vs : List RespValue,
    (∀ v ∈ vs, (encode v).length ≤ B → ∀ s, p (encode v ++ s) = .ok (some (v, (encode v).length))) →
    (∀ v ∈ vs, ∀ q, q <+: encode v → q.length < (encode v).length → q.length ≤ B → p q = .ok none) →
    ∀ (data : Bytes) (pos : Nat), data.drop pos <+: encodeElements vs →
      (data.drop pos).length < (encodeElements vs).length → (data.drop pos).length ≤ B →
      parseElements p data vs.length pos = .ok none
  | [], _, _, _, _, _, hlt, _ => absurd hlt (by simp [encodeElements])
  | v :: vs, hfull, hpre, data, pos, hr, hlt, hB => by
    rw [List.length_cons, parseElements]
    split
    · rfl
    by_cases hv : (data.drop pos).length < (encode v).length
    · have hrv : data.drop pos <+: encode v :=
        List.prefix_of_prefix_length_le hr (List.prefix_append _ _) hv.le
      rw [hpre v (List.mem_cons_self _ _) _ hrv hv hB]
    · obtain ⟨r, hr'⟩ := List.prefix_of_prefix_length_le (List.prefix_append _ _) hr (by omega)
      have hdrop : data.drop (pos + (encode v).length) = r := by
        rw [← List.drop_drop, ← hr', List.drop_left]
      have hlen : (data.drop pos).length = (encode v).length + r.length := by
        rw [← hr', List.length_append]
      have hE : (encodeElements (v :: vs)).length = (encode v).length + (encodeElements vs).length := by
        simp [encodeElements]
      have hrE : r <+: encodeElements vs := by
        rw [← hr', encodeElements] at hr; exact (List.prefix_append_right_inj _).1 hr
      rw [← hr', hfull v (List.mem_cons_self _ _) (by omega)]
      simp only
      rw [parseElements_cut vs (fun w hw => hfull w (List.mem_cons_of_mem _ hw))
        (fun w hw => hpre w (List.mem_cons_of_mem _ hw)) data _ (hdrop ▸ hrE)
        (by rw [hdrop]; omega) (by rw [hdrop]; omega)]

/-- `parse` with enough fuel needs more bytes on every proper prefix of an encoding. -/
theorem parseAt_cut : ∀ (fuel : Nat) (v : RespValue), encodable v = true →
    ∀ q, q <+: encode v → q.length < (encode v).length → q.length < fuel → parseAt fuel q = .ok none
  | 0, _, _, _, _, _, h => absurd h (Nat.not_lt_zero _)
  | fuel + 1, v, hv, q, hq, hlt, hf => by
    cases v with
    | simpleString w =>
      rw [show encode (.simpleString w) = 43 :: (w ++ crlf ++ []) by simp [encode, encodeSimpleString]]
        at hq hlt
      rcases proper_prefix_cases hq (by simpa using hlt) with rfl | ⟨q', rfl, hq'⟩ | ⟨r, -, -, hr⟩
      · rfl
      · simp only [parseAt_simpleString, parseSimpleString,
          findCRLF_cut (by simpa [encodable] using hv) hq']
      · exact absurd hr (Nat.not_lt_zero _)
    | error w =>
      rw [show encode (.error w) = 45 :: (w ++ crlf ++ []) by simp [encode, encodeError]] at hq hlt
      rcases proper_prefix_cases hq (by simpa using hlt) with rfl | ⟨q', rfl, hq'⟩ | ⟨r, -, -, hr⟩
      · rfl
      · simp only [parseAt_error, parseError, findCRLF_cut (by simpa [encodable] using hv) hq']
      · exact absurd hr (Nat.not_lt_zero _)
    | integer x =>
      rw [show encode (.integer x) = 58 :: (toDecimalInt x.toInt ++ crlf ++ []) by
        simp [encode, encodeInteger]] at hq hlt
      rcases proper_prefix_cases hq (by simpa using hlt) with rfl | ⟨q', rfl, hq'⟩ | ⟨r, -, -, hr⟩
      · rfl
      · simp only [parseAt_integer, parseInteger, findCRLF_cut (not_crlf_infix_toDecimalInt _) hq']
      · exact absurd hr (Nat.not_lt_zero _)
    | bulkString w =>
      have hw : w.length < 2147483648 := by simpa [encodable] using hv
      rw [show encode (.bulkString w) = 36 :: (toDecimal w.length ++ crlf ++ (w ++ crlf)) by
        simp [encode, encodeBulkString]] at hq hlt
      rcases proper_prefix_cases hq (by simpa using hlt) with rfl | ⟨q', rfl, hq'⟩ | ⟨r, rfl, -, hr⟩
      · rfl
      · simp only [parseAt_bulkString, parseBulkString, findCRLF_cut (not_crlf_infix_toDecimal _) hq']
      · simp only [parseAt_bulkString, parseBulkString, findCRLF_line (not_crlf_infix_toDecimal _),
          lineAt_line, stoi_toDecimal hw]
        rw [if_neg (by omega), if_neg (by omega), if_pos (by simp [crlf] at hr ⊢; omega)]
        rfl
    | nullBulkString =>
      rw [show encode .nullBulkString = 36 :: ([45, 49] ++ crlf ++ []) from rfl] at hq hlt
      rcases proper_prefix_cases hq (by simpa using hlt) with rfl | ⟨q', rfl, hq'⟩ | ⟨r, -, -, hr⟩
      · rfl
      · simp only [parseAt_bulkString, parseBulkString, @findCRLF_cut [45, 49] _ (by decide) hq']
      · exact absurd hr (Nat.not_lt_zero _)
    | array vs =>
      simp only [encodable, Bool.and_eq_true, decide_eq_true_eq, encodableAll_iff] at hv
      rw [show encode (.array vs) = 42 :: (toDecimal vs.length ++ crlf ++ encodeElements vs) by
        simp [encodeArray]] at hq hlt
      rcases proper_prefix_cases hq (by simpa using hlt) with rfl | ⟨q', rfl, hq'⟩ | ⟨r, rfl, hr, hrl⟩
      · rfl
      · simp only [parseAt_array, parseArray, findCRLF_cut (not_crlf_infix_toDecimal _) hq']
      · have hrf : r.length < fuel := by simp at hf; omega
        simp only [parseAt_array, parseArray, findCRLF_line (not_crlf_infix_toDecimal _),
          lineAt_line, stoi_toDecimal hv.1]
        rw [if_neg (by omega), if_neg (by omega), Int.toNat_ofNat,
          @parseElements_cut _ r.length vs
            (fun w hw hl => parseAt_encode_append fuel w (hv.2 w hw) (by omega))
            (fun w hw q hq hlt hl => parseAt_cut fuel w (hv.2 w hw) q hq hlt (by omega))
            _ _ (by simpa [crlf] using hr) (by simpa [crlf] using hrl) (by simp [crlf])]
        rfl
    | nullArray =>
      rw [show encode .nullArray = 42 :: ([45, 49] ++ crlf ++ []) from rfl] at hq hlt
      rcases proper_prefix_cases hq (by simpa using hlt) with rfl | ⟨q', rfl, hq'⟩ | ⟨r, -, -, hr⟩
      · rfl
      · simp only [parseAt_array, parseArray, @findCRLF_cut [45, 49] _ (by decide) hq']
      · exact absurd hr (Nat.not_lt_zero _)

/-- Every value the factories build, with no `"\r\n"` in the text of a simple string or an
error and every bulk-string length and array count below `2^31`, is read back by `parse` from
its encoding followed by any bytes, with exactly the encoding consumed; on every proper prefix
of the encoding `parse` asks for more bytes and does not throw. -/
theorem parse_encode (v : RespValue) (hv : encodable v = true) :
    (∀ s, parse (encode v ++ s) = .ok (some (v, (encode v).length))) ∧
      ∀ p, p <+: encode v → p ≠ encode v → parse p = .ok none :=
  ⟨fun s => parseAt_encode_append _ v hv (by simp only [List.length_append]; omega) s,
   fun p hp hne => parseAt_cut _ v hv p hp
     (lt_of_le_of_ne hp.length_le fun h => hne (hp.eq_of_length h)) (Nat.lt_succ_self _)⟩

/-- An array holding a bulk string with `"\r\n"` inside, the least `int64_t`, a null bulk string
and a simple string ending in `'\r'`, followed by a stray `'+'`. -/
theorem parse_encode_nested :
    parse (encode (.array [.bulkString [13, 10], .integer (-9223372036854775808), .nullBulkString,
        .simpleString [65, 13]]) ++ [43]) =
      .ok (some (.array [.bulkString [13, 10], .integer (-9223372036854775808), .nullBulkString,
        .simpleString [65, 13]], 45)) :=
  (parse_encode (.array [.bulkString [13, 10], .integer (-9223372036854775808), .nullBulkString,
    .simpleString [65, 13]]) (by decide)).1 [43]

/-! ## The fuel suffices -/

/-- INTERNAL: `rethrow` changes only what is thrown. -/
theorem rethrow_eq_ok {α : Type} {what : String} {x : ParseResult α} {y : Option (α × Nat)} :
    rethrow what x = .ok y ↔ x = .ok y := by
  unfold rethrow; split <;> simp_all

/-- INTERNAL: `rethrow` does not make a result run out of fuel. -/
theorem rethrow_ne_outOfFuel {α : Type} (what : String) {r : ParseResult α}
    (h : r ≠ .error .outOfFuel) : rethrow what r ≠ .error .outOfFuel := by
  unfold rethrow; split <;> simp_all

/-- INTERNAL: the loop of `parseArray` runs out of fuel only where an element does. -/
theorem parseElements_ne_outOfFuel {p : Bytes → ParseResult RespValue} {data : Bytes} {p0 : Nat}
    (hp : ∀ pos, p0 ≤ pos → pos < data.length → p (data.drop pos) ≠ .error .outOfFuel) :
    ∀ count pos, p0 ≤ pos → parseElements p data count pos ≠ .error .outOfFuel
  | 0, _, _ => by simp [parseElements]
  | count + 1, pos, h => by
    rw [parseElements]
    split
    · simp
    have hpos := hp pos h (by omega)
    rcases hv : p (data.drop pos) with e | _ | ⟨v, used⟩ <;> simp only [hv, ne_eq, reduceCtorEq,
      Except.error.injEq, not_false_eq_true] at hpos ⊢
    · exact hpos
    have ih := parseElements_ne_outOfFuel hp count (pos + used) (Nat.le_add_right_of_le h)
    rcases hr : parseElements p data count (pos + used) with e | _ | ⟨vs, e'⟩ <;>
      simp only [hr, ne_eq, reduceCtorEq, Except.error.injEq, not_false_eq_true] at ih ⊢
    exact ih

/-- `parse` with more rounds of fuel than bytes never runs out of fuel. -/
theorem parseAt_ne_outOfFuel : ∀ (fuel : Nat) (data : Bytes), data.length < fuel →
    parseAt fuel data ≠ .error .outOfFuel
  | 0, _, h => absurd h (Nat.not_lt_zero _)
  | fuel + 1, [], _ => by simp [parseAt]
  | fuel + 1, t :: d, h => by
    rw [parseAt]
    split_ifs
    · unfold parseSimpleString; split <;> simp
    · unfold parseError; split <;> simp
    · unfold parseInteger; split; · simp
      split <;> simp
    · unfold parseBulkString; split; · simp
      exact rethrow_ne_outOfFuel _ (by split; · simp
                                       split_ifs <;> simp)
    · unfold parseArray
      split
      · simp
      next crlfPos _ =>
        apply rethrow_ne_outOfFuel
        split
        · simp
        next len _ =>
          split_ifs
          · simp
          · simp
          · have := @parseElements_ne_outOfFuel (parseAt fuel) (t :: d) 1
              (fun pos h1 h2 => parseAt_ne_outOfFuel fuel _ (by simp at h ⊢; omega))
              len.toNat (crlfPos + 2) (by omega)
            split <;> simp_all
    · simp

/-- `parse` never runs out of fuel: the model's bound on its recursion is never what answers. -/
theorem parse_ne_outOfFuel (data : Bytes) : parse data ≠ .error .outOfFuel :=
  parseAt_ne_outOfFuel _ data (Nat.lt_succ_self _)

end RespProtocol

end BlinkDb
