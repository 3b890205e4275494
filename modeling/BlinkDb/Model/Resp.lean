import BlinkDb.Model.Bytes

/-!
# RESP-2 values and `RespProtocol` (`resp.cpp`)

`RespProtocol::RespValue` keeps a type tag, a null flag, a string, an `int64_t` and a vector
of values; each factory (`createSimpleString`, …, `createNullArray`) sets the tag, the flag and
the one field its type reads. `RespValue` here has one constructor per factory, so that a value
is exactly what a factory builds, and two values are equal when their type, null flag and
contents are.

`encode` is the encoder of `resp.cpp:160-273`, one case per type. `parse` is the incremental
parser of `resp.cpp:286-443`. It answers with a value and the number of bytes it consumed,
with `none` for `std::nullopt` ("need more bytes"), or it throws; `ParseError.runtimeError`
carries the `what()` text of the `std::runtime_error`. Each `catch (const std::exception&)` of
the source rethrows with a fixed text, and `rethrow` does the same.

`parseArray` calls `parse` on the rest of the input, which is shorter than the input. The model
bounds that recursion by a fuel argument: `parse` gives it one unit more than the length of its
input, which always suffices (`BlinkDb.Analysis.RespRoundTrip`), so `ParseError.outOfFuel` is
never the answer.
-/

set_option autoImplicit false

namespace BlinkDb

/-- A `RespProtocol::RespValue` as its factories build it. -/
inductive RespValue
  | simpleString (value : Bytes)
  | error (value : Bytes)
  | integer (value : BitVec 64)
  | bulkString (value : Bytes)
  | nullBulkString
  | array (values : List RespValue)
  | nullArray
  deriving Repr

namespace RespProtocol

/-! ## Encoding -/

/-- `encodeSimpleString(value)`: `"+" + value + CRLF`. -/
def encodeSimpleString (value : Bytes) : Bytes := 43 :: value ++ crlf

/-- `encodeError(value)`: `"-" + value + CRLF`. -/
def encodeError (value : Bytes) : Bytes := 45 :: value ++ crlf

/-- `encodeInteger(value)`: `":" + std::to_string(value) + CRLF`. -/
def encodeInteger (value : BitVec 64) : Bytes := 58 :: toDecimalInt value.toInt ++ crlf

/-- `encodeBulkString(value)`: `"$" + std::to_string(value.size()) + CRLF + value + CRLF`. -/
def encodeBulkString (value : Bytes) : Bytes := 36 :: toDecimal value.length ++ crlf ++ value ++ crlf

/-- `encodeNullBulkString()`: `"$-1" + CRLF`. -/
def encodeNullBulkString : Bytes := [36, 45, 49] ++ crlf

/-- `encodeNullArray()`: `"*-1" + CRLF`. -/
def encodeNullArray : Bytes := [42, 45, 49] ++ crlf

mutual

/-- `encode(value)`: the wire form of a value; an array is `encodeArray`. -/
def encode : RespValue → Bytes
  | .simpleString v => encodeSimpleString v
  | .error v => encodeError v
  | .integer v => encodeInteger v
  | .bulkString v => encodeBulkString v
  | .nullBulkString => encodeNullBulkString
  | .array vs => 42 :: toDecimal vs.length ++ crlf ++ encodeElements vs
  | .nullArray => encodeNullArray

/-- The loop of `encodeArray`: `result += encode(value)` for each value in order. -/
def encodeElements : List RespValue → Bytes
  | [] => []
  | v :: vs => encode v ++ encodeElements vs

end

/-- `encodeArray(values)`: `"*" + std::to_string(values.size()) + CRLF`, then each value. -/
def encodeArray (values : List RespValue) : Bytes :=
  42 :: toDecimal values.length ++ crlf ++ encodeElements values

/-- `encode` of an array is `encodeArray`. -/
@[simp] theorem encode_array (vs : List RespValue) : encode (.array vs) = encodeArray vs := rfl

/-- `encodeCommand(command, args)`: an array of bulk strings, the command first. -/
def encodeCommand (command : Bytes) (args : List Bytes) : Bytes :=
  encodeArray ((command :: args).map .bulkString)

/-! ## Parsing -/

/-- What `parse` throws. -/
inductive ParseError
  /-- A `std::runtime_error`, with its `what()` text. -/
  | runtimeError (what : String)
  /-- The model's fuel ran out; `parse` gives enough that this never happens. -/
  | outOfFuel
  deriving DecidableEq, Repr

/-- The answer of a parser: a value and the bytes consumed, `none` for `std::nullopt`, or
what it threw. -/
abbrev ParseResult (α : Type) := Except ParseError (Option (α × Nat))

/-- `catch (const std::exception& e) { throw std::runtime_error(what); }` around a block. -/
def rethrow {α : Type} (what : String) : ParseResult α → ParseResult α
  | .error (.runtimeError _) => .error (.runtimeError what)
  | r => r

/-- `data.substr(1, crlf_pos - 1)`: the line after the type byte. -/
def lineAt (data : Bytes) (crlfPos : Nat) : Bytes := (data.drop 1).take (crlfPos - 1)

/-- `parseSimpleString(data, pos)`. -/
def parseSimpleString (data : Bytes) : ParseResult RespValue :=
  match findCRLF data 1 with
  | none => .ok none
  | some crlfPos => .ok (some (.simpleString (lineAt data crlfPos), crlfPos + 2))

/-- `parseError(data, pos)`. -/
def parseError (data : Bytes) : ParseResult RespValue :=
  match findCRLF data 1 with
  | none => .ok none
  | some crlfPos => .ok (some (.error (lineAt data crlfPos), crlfPos + 2))

/-- `parseInteger(data, pos)`: `std::stoll` of the line, whose failure is rethrown. -/
def parseInteger (data : Bytes) : ParseResult RespValue :=
  match findCRLF data 1 with
  | none => .ok none
  | some crlfPos =>
    match stoll (lineAt data crlfPos) with
    | some v => .ok (some (.integer (BitVec.ofInt 64 v), crlfPos + 2))
    | none => .error (.runtimeError "Invalid integer format in RESP data")

/-- `parseBulkString(data, pos)`: the length line by `std::stoi`; `-1` is the null bulk
string; otherwise the `len` bytes after the header, when they and two more have arrived. The
trailing two bytes are not looked at. -/
def parseBulkString (data : Bytes) : ParseResult RespValue :=
  match findCRLF data 1 with
  | none => .ok none
  | some crlfPos =>
    rethrow "Invalid bulk string format in RESP data" <|
      match stoi (lineAt data crlfPos) with
      | none => .error (.runtimeError "stoi")
      | some len =>
        if len = -1 then .ok (some (.nullBulkString, crlfPos + 2))
        else if len < 0 then .error (.runtimeError "Invalid bulk string length in RESP data")
        else if data.length < crlfPos + 2 + len.toNat + 2 then .ok none
        else .ok (some (.bulkString ((data.drop (crlfPos + 2)).take len.toNat),
          crlfPos + 2 + len.toNat + 2))

/-- The loop of `parseArray`: `count` elements from byte `pos` on, each parsed by `parseNext`
from the rest of the input, with `std::nullopt` as soon as the input runs out or an element
is incomplete. -/
def parseElements (parseNext : Bytes → ParseResult RespValue) (data : Bytes) :
    Nat → Nat → ParseResult (List RespValue)
  | 0, pos => .ok (some ([], pos))
  | count + 1, pos =>
    if data.length ≤ pos then .ok none
    else
      match parseNext (data.drop pos) with
      | .error e => .error e
      | .ok none => .ok none
      | .ok (some (v, used)) =>
        match parseElements parseNext data count (pos + used) with
        | .error e => .error e
        | .ok none => .ok none
        | .ok (some (vs, endPos)) => .ok (some (v :: vs, endPos))

/-- `parseArray(data, pos)`: the count line by `std::stoi`; `-1` is the null array; otherwise
the elements, each parsed by `parseNext`. -/
def parseArray (parseNext : Bytes → ParseResult RespValue) (data : Bytes) : ParseResult RespValue :=
  match findCRLF data 1 with
  | none => .ok none
  | some crlfPos =>
    rethrow "Invalid array format in RESP data" <|
      match stoi (lineAt data crlfPos) with
      | none => .error (.runtimeError "stoi")
      | some len =>
        if len = -1 then .ok (some (.nullArray, crlfPos + 2))
        else if len < 0 then .error (.runtimeError "Invalid array length in RESP data")
        else
          match parseElements parseNext data len.toNat (crlfPos + 2) with
          | .error e => .error e
          | .ok none => .ok none
          | .ok (some (vs, endPos)) => .ok (some (.array vs, endPos))

/-- `parse(data, bytes_consumed)` with `fuel` for its recursion through `parseArray`: `none` on
empty input, otherwise the parser of the type byte. -/
def parseAt : Nat → Bytes → ParseResult RespValue
  | 0, _ => .error .outOfFuel
  | fuel + 1, data =>
    match data with
    | [] => .ok none
    | t :: _ =>
      if t = 43 then parseSimpleString data
      else if t = 45 then parseError data
      else if t = 58 then parseInteger data
      else if t = 36 then parseBulkString data
      else if t = 42 then parseArray (parseAt fuel) data
      else .error (.runtimeError "Invalid RESP data type")

/-- `RespProtocol::parse(data, bytes_consumed)`. -/
def parse (data : Bytes) : ParseResult RespValue := parseAt (data.length + 1) data

end RespProtocol

end BlinkDb
