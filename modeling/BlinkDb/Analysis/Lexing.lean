import Mathlib.Algebra.Group.Nat.Basic
import BlinkDb.Model.Bytes

/-!
# Numerals and line ends

The facts about the library calls of `BlinkDb.Model.Bytes` that every framing proof needs:

* `std::stoi` and `std::stoll` read back what `std::to_string` wrote, when the value fits
  (`stoi_toDecimal`, `stoi_toDecimalInt`, `stoll_toDecimalInt`). This is how a RESP length or
  count survives the wire.
* A numeral holds no `'\r'`, so the first `"\r\n"` after a header's type byte is the one
  that ends its numeral (`findFrom_append_crlf`), and a header cut before its `"\n"` has no
  `"\r\n"` at all (`findFrom_eq_none`, `not_crlf_infix_append_cr`).
* `std::string::find("\r\n", pos)`, which `Connection::process_commands` uses, and
  `RespProtocol::findCRLF` are the same function (`stringFind_crlf`).
* Reading at an index of a buffer whose rest from some index is known: the byte there, the rest
  past a known front, and `substr` of that front (`getD_of_drop`, `drop_add_of_drop`,
  `substr_of_drop`).
-/

set_option autoImplicit false

namespace BlinkDb

/-! ## `std::to_string` and `std::stoi` -/

/-- INTERNAL: the characters `Nat.toDigits` writes for a digit. -/
theorem digitChar_toNat : ∀ d, d < 10 → (Nat.digitChar d).toNat = 48 + d := by decide

/-- INTERNAL: the byte of a digit character. -/
theorem charByte_digitChar {d : Nat} (h : d < 10) : (charByte (Nat.digitChar d)).toNat = 48 + d := by
  simp only [charByte, Nat.toUInt8, UInt8.toNat, UInt8.ofNat, Fin.ofNat, digitChar_toNat d h]
  simp
  omega

/-- INTERNAL: reading one more digit multiplies by ten and adds it. -/
theorem digitsValue_append_digit (ds : Bytes) (b : UInt8) :
    digitsValue (ds ++ [b]) = digitsValue ds * 10 + (b.toNat - 48) := by
  simp [digitsValue, List.foldl_append]

/-- INTERNAL: the digit loop of `Nat.toDigits` prepends a non-empty run of digit bytes whose
value is the number, given enough fuel. -/
theorem toDigitsCore_spec (f n : Nat) (ds : List Char) (h : n < f) :
    ∃ pre : Bytes, (Nat.toDigitsCore 10 f n ds).map charByte = pre ++ ds.map charByte ∧
      pre ≠ [] ∧ (∀ b ∈ pre, isDigit b) ∧ digitsValue pre = n := by
  induction f generalizing n ds with
  | zero => omega
  | succ f ih =>
    have hb := charByte_digitChar (Nat.mod_lt n (show 10 > 0 by omega))
    have hdig : isDigit (charByte (Nat.digitChar (n % 10))) := by simp [isDigit, hb]; omega
    dsimp only [Nat.toDigitsCore]
    split
    · refine ⟨[charByte (Nat.digitChar (n % 10))], by simp, by simp, by simpa using hdig, ?_⟩
      simp [digitsValue, hb]; omega
    · obtain ⟨pre, hpre, -, hall, hval⟩ := ih (n / 10) (Nat.digitChar (n % 10) :: ds) (by omega)
      refine ⟨pre ++ [charByte (Nat.digitChar (n % 10))], by simpa using hpre, by simp, ?_, ?_⟩
      · simpa [or_imp, forall_and] using And.intro hall hdig
      · rw [digitsValue_append_digit, hval, hb]; omega

/-- `std::to_string` writes a non-empty run of decimal digits whose value is the number. -/
theorem toDecimal_spec (n : Nat) :
    toDecimal n ≠ [] ∧ (∀ b ∈ toDecimal n, isDigit b) ∧ digitsValue (toDecimal n) = n := by
  obtain ⟨pre, hpre, hne, hall, hval⟩ := toDigitsCore_spec (n + 1) n [] (by omega)
  simp only [List.map_nil, List.append_nil] at hpre
  rw [toDecimal, show Nat.toDigits 10 n = Nat.toDigitsCore 10 (n + 1) n [] from rfl, hpre]
  exact ⟨hne, hall, hval⟩

/-- INTERNAL: the digit loop of `Nat.toDigits` adds at most `e + 1` digits to a number below
`10^(e+1)`. -/
theorem length_toDigitsCore_le (f : Nat) :
    ∀ (n e : Nat) (ds : List Char), n < 10 ^ (e + 1) → (Nat.toDigitsCore 10 f n ds).length ≤ ds.length + e + 1 := by
  induction f with
  | zero => intro n e ds _; show ds.length ≤ ds.length + e + 1; omega
  | succ f ih =>
    intro n e ds hn
    dsimp only [Nat.toDigitsCore]
    split
    · rw [List.length_cons]; omega
    · cases e with
      | zero => omega
      | succ e =>
        have hdiv : n / 10 < 10 ^ (e + 1) := Nat.div_lt_of_lt_mul (by rw [← Nat.pow_succ']; exact hn)
        have := ih (n / 10) e (Nat.digitChar (n % 10) :: ds) hdiv
        simp only [List.length_cons] at this
        omega

/-- `std::to_string` of a number below `10^(e+1)` writes at most `e + 1` digits. -/
theorem length_toDecimal_le {n e : Nat} (hn : n < 10 ^ (e + 1)) : (toDecimal n).length ≤ e + 1 := by
  have h := length_toDigitsCore_le (n + 1) n e [] hn
  rw [List.length_nil, Nat.zero_add] at h
  rw [toDecimal, List.length_map]
  exact h

/-- INTERNAL: the digits of `std::to_string` hold no `'\r'`. -/
theorem not_mem_toDecimal (n : Nat) : (13 : UInt8) ∉ toDecimal n :=
  fun h => absurd ((toDecimal_spec n).2.1 13 h) (by decide)

/-- INTERNAL: a digit is not white space. -/
theorem not_isSpace_of_isDigit {b : UInt8} (h : isDigit b) : isSpace b = false := by
  simp [isDigit] at h; simp [isSpace]; omega

/-- INTERNAL: a digit differs from every byte below `'0'`, the signs among them. -/
theorem ne_of_isDigit {b : UInt8} (h : isDigit b) (c : UInt8) (hc : c.toNat < 48) : b ≠ c := by
  rintro rfl; simp [isDigit] at h; omega

/-- INTERNAL: `strtol` takes a whole run of digits. -/
theorem takeWhile_isDigit {ds : Bytes} (hds : ∀ b ∈ ds, isDigit b) : ds.takeWhile isDigit = ds := by
  induction ds with
  | nil => rfl
  | cons d ds ih => simp_all [List.takeWhile_cons]

/-- INTERNAL: `strtol` on a run of digits, unsigned and after a `-`. -/
theorem strtol_digits {ds : Bytes} (hne : ds ≠ []) (hds : ∀ b ∈ ds, isDigit b) :
    strtol ds = some (digitsValue ds : Int) ∧ strtol (45 :: ds) = some (-(digitsValue ds : Int)) := by
  obtain ⟨d, ds', rfl⟩ := List.exists_cons_of_ne_nil hne
  have hd := hds d (by simp)
  have htw := takeWhile_isDigit hds
  constructor
  · simp [strtol, not_isSpace_of_isDigit hd, ne_of_isDigit hd 45 (by decide),
      ne_of_isDigit hd 43 (by decide), htw]
  · have h45 : isSpace 45 = false := by decide
    simp only [strtol, List.dropWhile_cons, h45, Bool.false_eq_true, if_false, List.head?_cons,
      List.tail_cons, if_true, htw]
    simp

/-- `strtol` reads back `std::to_string` of an unsigned value. -/
theorem strtol_toDecimal (n : Nat) : strtol (toDecimal n) = some (n : Int) := by
  obtain ⟨hne, hall, hval⟩ := toDecimal_spec n
  rw [(strtol_digits hne hall).1, hval]

/-- `strtol` reads back `std::to_string` of a signed value. -/
theorem strtol_toDecimalInt (i : Int) : strtol (toDecimalInt i) = some i := by
  obtain ⟨hne, hall, hval⟩ := toDecimal_spec i.natAbs
  unfold toDecimalInt
  split
  · rw [(strtol_digits hne hall).2, hval, Option.some.injEq]; omega
  · rw [(strtol_digits hne hall).1, hval, Option.some.injEq]; omega

/-- `std::stoi` reads back every length or count below `2^31`. -/
theorem stoi_toDecimal {n : Nat} (h : n < 2147483648) : stoi (toDecimal n) = some (n : Int) := by
  unfold stoi strtoBounded
  rw [strtol_toDecimal, Option.some_bind, if_pos (by omega)]

/-- `std::stoi` reads back every `int`. -/
theorem stoi_toDecimalInt {i : Int} (h1 : -2147483648 ≤ i) (h2 : i < 2147483648) :
    stoi (toDecimalInt i) = some i := by
  unfold stoi strtoBounded
  rw [strtol_toDecimalInt, Option.some_bind, if_pos (by omega)]

/-- `std::stoll` reads back every `int64_t`. -/
theorem stoll_toDecimalInt {i : Int} (h1 : -9223372036854775808 ≤ i) (h2 : i < 9223372036854775808) :
    stoll (toDecimalInt i) = some i := by
  unfold stoll strtoBounded
  rw [strtol_toDecimalInt, Option.some_bind, if_pos (by omega)]

/-! ## Line ends -/

/-- INTERNAL: a match of the needle lies at the start or after it, and ends within the text. -/
theorem findFrom_bounds {needle : Bytes} :
    ∀ {l : Bytes} {i p : Nat}, findFrom needle l i = some p →
      i ≤ p ∧ p + needle.length ≤ i + l.length
  | [], i, p, h => by
    rw [findFrom] at h
    split at h
    · next hn => cases h; simp [List.isEmpty_iff.1 hn]
    · cases h
  | b :: rest, i, p, h => by
    rw [findFrom] at h
    split at h
    · next hp =>
      cases h
      have := (List.isPrefixOf_iff_prefix.1 hp).length_le
      exact ⟨le_rfl, by omega⟩
    · have := findFrom_bounds h
      simp only [List.length_cons]
      omega

/-- A search finds nothing in a text that does not contain the needle. -/
theorem findFrom_eq_none {needle : Bytes} (hne : needle ≠ []) :
    ∀ {l : Bytes}, ¬ needle <:+: l → ∀ i, findFrom needle l i = none
  | [], _, i => by simp [findFrom, hne]
  | b :: rest, h, i => by
    rw [List.infix_cons_iff, not_or] at h
    simp [findFrom, List.isPrefixOf_iff_prefix, h.1, findFrom_eq_none hne h.2]

/-- INTERNAL: where `"\r\n"` starts a text. -/
theorem crlf_prefix_cons_iff (b : UInt8) (l : Bytes) :
    crlf <+: b :: l ↔ b = 13 ∧ l.head? = some 10 := by
  cases l <;> simp [crlf, eq_comm]

/-- A text without `'\r'` holds no `"\r\n"`. -/
theorem not_crlf_infix_of_not_mem {l : Bytes} (h : (13 : UInt8) ∉ l) : ¬ crlf <:+: l :=
  fun hi => h (hi.subset (by simp [crlf]))

/-- Cutting a line between its `'\r'` and its `'\n'` leaves no `"\r\n"`. -/
theorem not_crlf_infix_append_cr : ∀ {pre : Bytes}, ¬ crlf <:+: pre → ¬ crlf <:+: pre ++ [13]
  | [], _ => fun hi => by simpa [crlf] using hi.length_le
  | [b], _ => by simp [List.infix_cons_iff, crlf_prefix_cons_iff, crlf]
  | b :: c :: p, h => by
    rw [List.infix_cons_iff, not_or] at h
    rw [List.cons_append, List.infix_cons_iff, not_or]
    exact ⟨by simpa [crlf_prefix_cons_iff] using h.1, not_crlf_infix_append_cr h.2⟩

/-- The first `"\r\n"` after a text that holds none is the one that follows it. -/
theorem findFrom_append_crlf {pre : Bytes} (h : ¬ crlf <:+: pre) (rest : Bytes) (i : Nat) :
    findFrom crlf (pre ++ crlf ++ rest) i = some (i + pre.length) := by
  induction pre generalizing i with
  | nil => simp [findFrom, crlf, List.isPrefixOf]
  | cons b pre ih =>
    rw [List.infix_cons_iff, not_or] at h
    have hp : ¬ crlf <+: b :: (pre ++ crlf ++ rest) := by
      cases pre <;> simp_all [crlf_prefix_cons_iff, crlf]
    show findFrom crlf (b :: (pre ++ crlf ++ rest)) i = _
    rw [findFrom, if_neg (by rwa [List.isPrefixOf_iff_prefix]), ih h.2, List.length_cons]
    congr 1; omega

/-- `std::string::find("\r\n", pos)` is `RespProtocol::findCRLF(data, pos)`. -/
theorem stringFind_crlf (data : Bytes) (pos : Nat) : stringFind data crlf pos = findCRLF data pos := by
  unfold stringFind findCRLF
  by_cases h1 : data.length ≤ pos
  · by_cases h2 : pos ≤ data.length
    · simp [h1, h2, List.drop_eq_nil_of_le h1, findFrom, crlf]
    · simp [h1, h2]
  · simp [h1, show pos ≤ data.length by omega]

/-- `findCRLF` from `start` finds the line end after a text with no `"\r\n"`. -/
theorem findCRLF_of_drop {data : Bytes} {start : Nat} {pre rest : Bytes}
    (hd : data.drop start = pre ++ crlf ++ rest) (hpre : ¬ crlf <:+: pre) :
    findCRLF data start = some (start + pre.length) := by
  have h := congrArg List.length hd
  simp only [List.length_drop, List.length_append, crlf, List.length_cons, List.length_nil] at h
  rw [findCRLF, if_neg (by omega), hd, findFrom_append_crlf hpre]

/-- `findCRLF` from `start` finds nothing in a rest that holds no `"\r\n"`. -/
theorem findCRLF_of_drop_none {data : Bytes} {start : Nat} (hq : ¬ crlf <:+: data.drop start) :
    findCRLF data start = none := by
  unfold findCRLF
  split
  · rfl
  · exact findFrom_eq_none (by simp [crlf]) hq _

/-! ## Reading at an index -/

/-- INTERNAL: the byte at `i` is the head of the rest from `i`. -/
theorem getD_of_drop {l : Bytes} {i : Nat} {b : UInt8} {rest : Bytes} (h : l.drop i = b :: rest) :
    l.getD i 0 = b := by
  rw [List.getD_eq_getElem?_getD, show l[i]? = (l.drop i)[0]? by simp [List.getElem?_drop], h]
  simp

/-- INTERNAL: dropping past a known front. -/
theorem drop_add_of_drop {l : Bytes} {i j : Nat} {a b : Bytes} (h : l.drop i = a ++ b)
    (hj : i + a.length = j) : l.drop j = b := by
  rw [← hj, ← List.drop_drop, h, List.drop_left]

/-- INTERNAL: `substr` of a known front. -/
theorem substr_of_drop {l : Bytes} {i : Nat} {a b : Bytes} (h : l.drop i = a ++ b) :
    substr l i a.length = a := by
  rw [substr, h, List.take_left]

end BlinkDb
