import Mathlib.Data.List.Infix

/-!
# Byte strings and the library calls the code makes on them

Every `std::string` of the repository is a byte string: keys and values are binary-safe, and
the RESP-2 wire is bytes. `Bytes` is a list of `UInt8`, front first.

The code leans on a handful of C and C++ library functions whose behaviour on *every* input
decides what the server and the client do, so each gets a definition of its own here, written
from the library's documented contract:

* `std::to_string` on unsigned and signed values (`toDecimal`, `toDecimalInt`);
* `std::stoi` and `std::stoll`, which call `strtol`: skip leading white space, take an
  optional sign and then the longest run of decimal digits, ignore whatever follows, and
  throw when there is no digit or the value does not fit (`stoi`, `stoll`; `none` is the
  throw);
* `::toupper` in the `"C"` locale (`toupper`);
* `std::string::find` (`stringFind`) and the repository's own `RespProtocol::findCRLF`.
-/

set_option autoImplicit false

namespace BlinkDb

/-- A `std::string` as the byte sequence it holds. -/
abbrev Bytes := List UInt8

/-- The byte of an ASCII character. -/
def charByte (c : Char) : UInt8 := c.toNat.toUInt8

/-- The bytes of an ASCII literal of the source, such as `"+OK\r\n"`. -/
def ascii (s : String) : Bytes := s.toList.map charByte

/-- `"\r\n"`, the terminator of every RESP-2 line. -/
def crlf : Bytes := [13, 10]

/-- `isdigit` in the `"C"` locale. -/
def isDigit (b : UInt8) : Bool := 48 ≤ b.toNat && b.toNat ≤ 57

/-- `isspace` in the `"C"` locale: blank, `\t`, `\n`, `\v`, `\f`, `\r`. -/
def isSpace (b : UInt8) : Bool := b.toNat == 32 || (9 ≤ b.toNat && b.toNat ≤ 13)

/-! ## Numerals -/

/-- `std::to_string` of an unsigned value such as a `size_t`: its decimal digits, most
significant first, `"0"` for zero. -/
def toDecimal (n : Nat) : Bytes := (Nat.toDigits 10 n).map charByte

/-- `std::to_string` of a signed value: a `-` before the digits of a negative one. -/
def toDecimalInt (i : Int) : Bytes :=
  if i < 0 then 45 :: toDecimal i.natAbs else toDecimal i.natAbs

/-- The value of a run of decimal digit bytes, most significant first. -/
def digitsValue (ds : Bytes) : Nat := ds.foldl (fun acc d => acc * 10 + (d.toNat - 48)) 0

/-- `strtol(s, &end, 10)` on the C string of `s`: `none` when no digit is read
(`end == s`), otherwise the exact value of the digits read, with its sign. An embedded NUL
byte ends the C string, and it is neither a space nor a digit, so the scan stops there. -/
def strtol (s : Bytes) : Option Int :=
  let s := s.dropWhile isSpace
  let signed : Bool × Bytes :=
    if s.head? = some 45 then (true, s.tail)
    else if s.head? = some 43 then (false, s.tail)
    else (false, s)
  let ds := signed.2.takeWhile isDigit
  if ds.isEmpty then none
  else some (if signed.1 then -(digitsValue ds : Int) else digitsValue ds)

/-- `strtol` followed by the range check of a signed result, `-half ≤ v < half`. -/
def strtoBounded (half : Int) (s : Bytes) : Option Int :=
  (strtol s).bind fun v => if -half ≤ v ∧ v < half then some v else none

/-- `std::stoi`: `none` where it throws `std::invalid_argument` (no digit) or
`std::out_of_range` (the value is not an `int`, `half = 2^31`). -/
def stoi (s : Bytes) : Option Int := strtoBounded 2147483648 s

/-- `std::stoll`: as `stoi`, for `long long` (`half = 2^63`). -/
def stoll (s : Bytes) : Option Int := strtoBounded 9223372036854775808 s

/-- `s.substr(pos, n)` for `pos ≤ s.size()`: at most `n` bytes from index `pos`. Every call
modelled here passes such a `pos`, where `substr` does not throw. -/
def substr (s : Bytes) (pos n : Nat) : Bytes := (s.drop pos).take n

/-! ## Characters and searches -/

/-- `::toupper` in the `"C"` locale: only `a`–`z` change. -/
def toupper (b : UInt8) : UInt8 := if 97 ≤ b.toNat ∧ b.toNat ≤ 122 then b - 32 else b

/-- `std::transform(s.begin(), s.end(), s.begin(), ::toupper)`. -/
def uppercase (s : Bytes) : Bytes := s.map toupper

/-- The scan behind `std::string::find`: the first index, counted from `i` at the head of
`hay`, at which `needle` occurs. -/
def findFrom (needle : Bytes) : Bytes → Nat → Option Nat
  | [], i => if needle.isEmpty then some i else none
  | b :: rest, i => if needle.isPrefixOf (b :: rest) then some i else findFrom needle rest (i + 1)

/-- `hay.find(needle, pos)`; `none` is `std::string::npos`. -/
def stringFind (hay needle : Bytes) (pos : Nat) : Option Nat :=
  if pos ≤ hay.length then findFrom needle (hay.drop pos) pos else none

/-- `RespProtocol::findCRLF(data, start)` (resp.cpp:431-443): `npos` when `start` is past the
end, otherwise the first `i ≥ start` with `data[i] == '\r'` and `data[i + 1] == '\n'`, which
is the scan `findFrom crlf` of `data[start..]`. -/
def findCRLF (data : Bytes) (start : Nat) : Option Nat :=
  if data.length ≤ start then none else findFrom crlf (data.drop start) start

end BlinkDb
