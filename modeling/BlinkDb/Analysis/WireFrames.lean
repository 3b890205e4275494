import BlinkDb.Analysis.RespRoundTrip
import BlinkDb.Model.Client

/-!
# The two encoders of a command, and the frames `parse` accepts

`Client::encode_command` writes a command by hand, and `RespProtocol::encodeCommand` builds an
array of bulk strings and encodes it. For every command and arguments, binary ones included,
the two write the same bytes (`encodeCommand_agree`).

`parse` does not check that a frame is written the way `encode` writes it. A bulk string is
taken by its length, and the two bytes after the payload are skipped unread
(`parse_bulk_skips_terminator`). Lengths and integers are read with `std::stoi` and
`std::stoll`, which also take a sign, so `:+5\r\n` is the integer `5` (`parse_integer_plus`).
So `parse` accepts inputs whose consumed bytes are not the encoding of the value it returns.
-/

set_option autoImplicit false

namespace BlinkDb

open RespProtocol

/-! ## The client's encoder is the protocol's -/

/-- INTERNAL: the arguments of the client's encoder are the protocol's bulk strings. -/
theorem encodeElements_bulkString (xs : List Bytes) :
    encodeElements (xs.map .bulkString) = (xs.map Client.encodeBulk).flatten := by
  induction xs with
  | nil => rfl
  | cons x xs ih => simp only [List.map_cons, encodeElements, ih, List.flatten_cons]; rfl

/-- `Client::encode_command(c, args)` and `RespProtocol::encodeCommand(c, args)` write the same
bytes for every command and arguments, and both are the encoding of the array of the bulk
strings `c`, then `args`. -/
theorem encodeCommand_agree (command : Bytes) (args : List Bytes) :
    Client.encodeCommand command args = RespProtocol.encodeCommand command args ∧
      RespProtocol.encodeCommand command args =
        encode (.array ((command :: args).map .bulkString)) := by
  refine ⟨?_, rfl⟩
  simp only [Client.encodeCommand, RespProtocol.encodeCommand, encodeArray, List.map_cons,
    List.length_cons, List.length_map, encodeElements, encodeElements_bulkString, encode,
    List.append_assoc]
  rfl

/-! ## Inputs `parse` accepts that are not encodings -/

/-- A bulk string followed by any two bytes: `parse` returns the payload and consumes as many
bytes as its encoding has, but when the two bytes are not `"\r\n"` the bytes it consumed are not
that encoding. -/
theorem parse_bulk_skips_terminator (v s : Bytes) (x y : UInt8) (hv : v.length < 2147483648)
    (hxy : [x, y] ≠ crlf) :
    parse (36 :: (toDecimal v.length ++ crlf ++ (v ++ [x, y] ++ s))) =
        .ok (some (.bulkString v, (encode (.bulkString v)).length)) ∧
      (36 :: (toDecimal v.length ++ crlf ++ (v ++ [x, y] ++ s))).take
        (encode (.bulkString v)).length ≠ encode (.bulkString v) := by
  have hd : 36 :: (toDecimal v.length ++ crlf ++ (v ++ [x, y] ++ s)) =
      (36 :: (toDecimal v.length ++ crlf ++ v)) ++ ([x, y] ++ s) := by simp
  have he : encode (.bulkString v) = (36 :: (toDecimal v.length ++ crlf ++ v)) ++ crlf := by
    simp [encode, encodeBulkString]
  have hlen : (encode (.bulkString v)).length =
      (36 :: (toDecimal v.length ++ crlf ++ v)).length + 2 := by
    rw [he, List.length_append]; rfl
  refine ⟨?_, fun h => hxy ?_⟩
  · rw [parse, parseAt_bulkString, parseBulkString_payload _ _ hv, hlen]
    simp [crlf]; omega
  · rw [hd, hlen, List.take_append, he] at h
    exact List.append_cancel_left h

/-- `"$1\r\naXY"`: the bulk string `"a"`, with `XY` taken for its `"\r\n"`. -/
theorem parse_bulk_a_then_xy :
    [88, 89] ≠ crlf ∧
      parse (36 :: (toDecimal [97].length ++ crlf ++ ([97] ++ [88, 89] ++ []))) =
        .ok (some (.bulkString [97], (encode (.bulkString [97])).length)) ∧
      (36 :: (toDecimal [97].length ++ crlf ++ ([97] ++ [88, 89] ++ []))).take
        (encode (.bulkString [97])).length ≠ encode (.bulkString [97]) :=
  ⟨by decide, parse_bulk_skips_terminator [97] [] 88 89 (by decide) (by decide)⟩

/-- INTERNAL: `strtol` takes a `+` before the digits of `std::to_string`. -/
theorem strtol_plus_toDecimal (n : Nat) : strtol (43 :: toDecimal n) = some (n : Int) := by
  obtain ⟨hne, hall, hval⟩ := toDecimal_spec n
  have h43 : isSpace 43 = false := by decide
  simp [strtol, h43, takeWhile_isDigit hall, hval, hne]

/-- INTERNAL: `std::stoll` takes a `+` before the digits of `std::to_string`. -/
theorem stoll_plus_toDecimal (n : Nat) (hn : n < 9223372036854775808) :
    stoll (43 :: toDecimal n) = some (n : Int) := by
  rw [stoll, strtoBounded, strtol_plus_toDecimal, Option.some_bind, if_pos (by omega)]

/-- INTERNAL: the encoding of an integer has a digit or `-` after its `:`, never `+`. -/
theorem encode_integer_ne_plus (x : BitVec 64) (rest : Bytes) : encode (.integer x) ≠ 58 :: 43 :: rest := by
  obtain ⟨hne, hall, -⟩ := toDecimal_spec x.toInt.natAbs
  obtain ⟨d, ds, hd⟩ := List.exists_cons_of_ne_nil hne
  have hd43 : d ≠ 43 := ne_of_isDigit (hall d (by simp [hd])) 43 (by decide)
  simp only [encode, encodeInteger, toDecimalInt]
  split <;> simp [hd, hd43]

/-- An integer written with a `+`: `parse` reads it with `std::stoll` and returns its value,
though no integer's encoding has a `+`. -/
theorem parse_integer_plus (n : Nat) (s : Bytes) (hn : n < 9223372036854775808) :
    parse (58 :: (43 :: toDecimal n ++ crlf ++ s)) =
        .ok (some (.integer (BitVec.ofInt 64 n), (toDecimal n).length + 4)) ∧
      (58 :: (43 :: toDecimal n ++ crlf ++ s)).take ((toDecimal n).length + 4) ≠
        encode (.integer (BitVec.ofInt 64 n)) := by
  have hline : ¬ crlf <:+: 43 :: toDecimal n :=
    not_crlf_infix_of_not_mem (by simpa using not_mem_toDecimal n)
  refine ⟨?_, fun h => encode_integer_ne_plus (BitVec.ofInt 64 n) (toDecimal n ++ crlf) ?_⟩
  · rw [parse, parseAt_integer]
    simp only [parseInteger, findCRLF_line hline, lineAt_line, stoll_plus_toDecimal n hn]
    rfl
  · rw [← h, show 58 :: (43 :: toDecimal n ++ crlf ++ s) = (58 :: 43 :: (toDecimal n ++ crlf)) ++ s by
      simp, List.take_left' (by simp [crlf])]

end BlinkDb
