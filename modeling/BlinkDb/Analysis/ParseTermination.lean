import BlinkDb.Analysis.RespRoundTrip

/-!
# `parse` answers on every input

`RespProtocol::parse` recurses through `parseArray`, which calls `parse` on
`data.substr(current_pos)` for each element, in a loop that runs up to the count the header
declares, any `int` up to `INT_MAX`. It answers all the same, on every input, with a value, with
`std::nullopt` or by throwing, and what bounds it is the length of the input, not the loop's
counter (`parse_terminates`):

* every value a parser returns consumed at least three bytes, a type byte and a `"\r\n"`, and no
  more than its input has (`parseAt_consumes`);
* `parseArray` calls its element parser only on the suffixes `data.drop q` with `4 ≤ q`: after a
  header of four bytes at least, `*d\r\n`, and before the end (`parseArray_congr`);
* so a round of the element loop returns or moves on by three bytes, and no round past
  `(bytes left) / 3 + 1` is ever run, whatever the count (`parseElements_rounds`);
* the model's budget for the recursion is never what answers: every budget beyond `n / 4` on `n`
  bytes gives `parse`'s answer (`parseAt_eq_parse`).

So the recursion is at most `n / 4 + 1` levels deep on `n` bytes, and arrays nested `k` deep
around a simple string need all of them (`parse_depth_bound`). Each level of the source holds a
copy of the rest of the input, `data.substr(current_pos)`, while the next one runs; the model has
no stack and does not count that memory.
-/

set_option autoImplicit false

namespace BlinkDb

namespace RespProtocol

/-! ## Line ends -/

/-- INTERNAL: the line end `findCRLF` finds lies at `start` or after it, with its `"\r\n"` within
the input. -/
theorem findCRLF_bounds {data : Bytes} {start p : Nat} (h : findCRLF data start = some p) :
    start ≤ p ∧ p + 2 ≤ data.length := by
  unfold findCRLF at h
  split at h
  · cases h
  · have := findFrom_bounds h
    simp only [List.length_drop, crlf, List.length_cons, List.length_nil] at this
    omega

/-! ## What a value consumes -/

/-- What a parser's values consume: at least three bytes, a type byte and a `"\r\n"`, and no
more than its input has. -/
def Consumes (p : Bytes → ParseResult RespValue) : Prop :=
  ∀ data v n, p data = .ok (some (v, n)) → 3 ≤ n ∧ n ≤ data.length

/-- INTERNAL: a value that ends at its header's line end consumes the header. -/
theorem header_consumes {data : Bytes} {p : Nat} (hp : findCRLF data 1 = some p) :
    3 ≤ p + 2 ∧ p + 2 ≤ data.length := by
  have := findCRLF_bounds hp
  omega

/-- INTERNAL: a simple string that parses takes at least three bytes and no more than there are. -/
theorem parseSimpleString_consumes {data : Bytes} {v : RespValue} {n : Nat}
    (h : parseSimpleString data = .ok (some (v, n))) : 3 ≤ n ∧ n ≤ data.length := by
  unfold parseSimpleString at h
  split at h
  · cases h
  · next hp => cases h; exact header_consumes hp

/-- INTERNAL: an error that parses takes at least three bytes and no more than there are. -/
theorem parseError_consumes {data : Bytes} {v : RespValue} {n : Nat}
    (h : parseError data = .ok (some (v, n))) : 3 ≤ n ∧ n ≤ data.length := by
  unfold parseError at h
  split at h
  · cases h
  · next hp => cases h; exact header_consumes hp

/-- INTERNAL: an integer that parses takes at least three bytes and no more than there are. -/
theorem parseInteger_consumes {data : Bytes} {v : RespValue} {n : Nat}
    (h : parseInteger data = .ok (some (v, n))) : 3 ≤ n ∧ n ≤ data.length := by
  unfold parseInteger at h
  split at h
  · cases h
  · next hp => split at h <;> cases h; exact header_consumes hp

/-- INTERNAL: a bulk string that parses takes at least three bytes and no more than there are. -/
theorem parseBulkString_consumes {data : Bytes} {v : RespValue} {n : Nat}
    (h : parseBulkString data = .ok (some (v, n))) : 3 ≤ n ∧ n ≤ data.length := by
  unfold parseBulkString at h
  split at h
  · cases h
  next p hp =>
  have hb := findCRLF_bounds hp
  rw [rethrow_eq_ok] at h
  split at h
  · cases h
  split_ifs at h <;> cases h <;> omega

/-- INTERNAL: the loop of `parseArray`, with a parser whose values consume three bytes at
least: `count` elements take three bytes each at least, and end within the input. -/
theorem parseElements_consumes {p : Bytes → ParseResult RespValue} (hp : Consumes p) {data : Bytes} :
    ∀ {count pos : Nat} {vs : List RespValue} {e : Nat}, pos ≤ data.length →
      parseElements p data count pos = .ok (some (vs, e)) → pos + 3 * count ≤ e ∧ e ≤ data.length
  | 0, _, _, _, hpos, h => by cases h; omega
  | count + 1, pos, vs, e, _, h => by
    rw [parseElements] at h
    by_cases hl : data.length ≤ pos
    · rw [if_pos hl] at h; cases h
    rw [if_neg hl] at h
    rcases hv : p (data.drop pos) with _ | _ | ⟨v, used⟩ <;>
      simp only [hv, reduceCtorEq, Except.ok.injEq] at h
    have hu := hp _ _ _ hv
    rw [List.length_drop] at hu
    rcases hr : parseElements p data count (pos + used) with _ | _ | ⟨ws, e'⟩ <;>
      simp only [hr, reduceCtorEq, Except.ok.injEq, Option.some.injEq, Prod.mk.injEq] at h
    obtain ⟨-, rfl⟩ := h
    have := parseElements_consumes hp (by omega) hr
    omega

/-- INTERNAL: an array that parses takes at least three bytes and no more than there are, when its
elements do. -/
theorem parseArray_consumes {p : Bytes → ParseResult RespValue} (hp : Consumes p) {data : Bytes}
    {v : RespValue} {n : Nat} (h : parseArray p data = .ok (some (v, n))) :
    3 ≤ n ∧ n ≤ data.length := by
  unfold parseArray at h
  split at h
  · cases h
  next crlfPos hf =>
  have hb := findCRLF_bounds hf
  rw [rethrow_eq_ok] at h
  split at h
  · cases h
  next len _ =>
  split_ifs at h
  · cases h; omega
  rcases he : parseElements p data len.toNat (crlfPos + 2) with _ | _ | ⟨vs, e⟩ <;>
    simp only [he, reduceCtorEq, Except.ok.injEq, Option.some.injEq, Prod.mk.injEq] at h
  obtain ⟨-, rfl⟩ := h
  have := parseElements_consumes hp (by omega) he
  omega

/-- Every value `parse` returns, at any budget, consumed at least three bytes and no more than
its input has. -/
theorem parseAt_consumes (fuel : Nat) : Consumes (parseAt fuel) := by
  induction fuel with
  | zero => intro _ _ _ h; cases h
  | succ fuel ih =>
    intro data v n h
    cases data with
    | nil => cases h
    | cons t d =>
      rw [parseAt] at h
      split_ifs at h
      · exact parseSimpleString_consumes h
      · exact parseError_consumes h
      · exact parseInteger_consumes h
      · exact parseBulkString_consumes h
      · exact parseArray_consumes ih h

/-! ## Where `parseArray` calls `parse` -/

/-- INTERNAL: the loop of `parseArray` consults its parser only at positions from `i` on, before
the end. -/
theorem parseElements_congr {p p' : Bytes → ParseResult RespValue} {data : Bytes} {i : Nat}
    (h : ∀ q, i ≤ q → q < data.length → p (data.drop q) = p' (data.drop q)) :
    ∀ (count pos : Nat), i ≤ pos → parseElements p data count pos = parseElements p' data count pos
  | 0, _, _ => rfl
  | count + 1, pos, hi => by
    rw [parseElements, parseElements]
    split_ifs with hl
    · rfl
    rw [h pos hi (by omega)]
    rcases p' (data.drop pos) with _ | _ | ⟨v, used⟩
    · rfl
    · rfl
    · simp only [parseElements_congr h count (pos + used) (by omega)]

/-- `parseArray` calls its element parser only on the suffixes `data.drop q` with `4 ≤ q`, before
the end: past a header of four bytes at least, since a count line `std::stoi` reads is not
empty. -/
theorem parseArray_congr {p p' : Bytes → ParseResult RespValue} {data : Bytes}
    (h : ∀ q, 4 ≤ q → q < data.length → p (data.drop q) = p' (data.drop q)) :
    parseArray p data = parseArray p' data := by
  unfold parseArray
  rcases hf : findCRLF data 1 with _ | crlfPos
  · rfl
  have hb := (findCRLF_bounds hf).1
  simp only
  congr 1
  rcases hs : stoi (lineAt data crlfPos) with _ | len
  · rfl
  have h2 : 2 ≤ crlfPos := by
    by_contra hlt
    obtain rfl : crlfPos = 1 := by omega
    simp only [lineAt, Nat.sub_self, List.take_zero] at hs
    cases hs
  simp only
  split_ifs
  · rfl
  · rfl
  · rw [parseElements_congr h len.toNat (crlfPos + 2) (by omega)]

/-! ## The rounds of the element loop -/

/-- No round of the element loop past `(bytes left) / 3 + 1` is ever run: any two counts beyond
that give the same answer. -/
theorem parseElements_rounds {p : Bytes → ParseResult RespValue} (hp : Consumes p) {data : Bytes} :
    ∀ {m n i : Nat}, (data.length - i) / 3 + 1 ≤ m → (data.length - i) / 3 + 1 ≤ n →
      parseElements p data m i = parseElements p data n i
  | 0, _, _, hm, _ => absurd hm (by omega)
  | _, 0, _, _, hn => absurd hn (by omega)
  | m + 1, n + 1, i, hm, hn => by
    rw [parseElements, parseElements]
    split_ifs with hl
    · rfl
    rcases hv : p (data.drop i) with _ | _ | ⟨v, used⟩
    · rfl
    · rfl
    · have hu := hp _ _ _ hv
      rw [List.length_drop] at hu
      have hm' : (data.length - (i + used)) / 3 + 1 ≤ m := by omega
      have hn' : (data.length - (i + used)) / 3 + 1 ≤ n := by omega
      simp only [parseElements_rounds hp hm' hn']

/-- The element loop's answer is the one of its first `(bytes left) / 3 + 1` rounds. -/
theorem parseElements_min_rounds {p : Bytes → ParseResult RespValue} (hp : Consumes p) (data : Bytes)
    (count pos : Nat) :
    parseElements p data count pos = parseElements p data (min count ((data.length - pos) / 3 + 1)) pos := by
  rcases Nat.le_total count ((data.length - pos) / 3 + 1) with h | h
  · rw [Nat.min_eq_left h]
  · rw [Nat.min_eq_right h]
    exact parseElements_rounds hp h le_rfl

/-! ## The budget for the recursion -/

/-- With a budget beyond `n / 4` on `n` bytes, more budget changes nothing. -/
theorem parseAt_add (k : Nat) : ∀ (fuel : Nat) (data : Bytes), data.length / 4 + 1 ≤ fuel →
    parseAt (fuel + k) data = parseAt fuel data
  | 0, _, h => absurd h (by omega)
  | fuel + 1, [], _ => by rw [Nat.add_right_comm]; rfl
  | fuel + 1, t :: d, h => by
    have harray : parseArray (parseAt (fuel + k)) (t :: d) = parseArray (parseAt fuel) (t :: d) := by
      refine parseArray_congr fun q hq hlt => parseAt_add k fuel _ ?_
      simp only [List.length_drop, List.length_cons] at h hlt ⊢
      omega
    rw [Nat.add_right_comm, parseAt, parseAt, harray]

/-- `parse`'s answer is the one of every budget beyond `n / 4` on `n` bytes. -/
theorem parseAt_eq_parse {data : Bytes} {fuel : Nat} (h : data.length / 4 + 1 ≤ fuel) :
    parseAt fuel data = parse data := by
  unfold parse
  rcases Nat.le_total fuel (data.length + 1) with hle | hle
  · obtain ⟨k, hk⟩ := Nat.exists_eq_add_of_le hle
    rw [hk]
    exact (parseAt_add k fuel data h).symm
  · obtain ⟨k, rfl⟩ := Nat.exists_eq_add_of_le hle
    exact parseAt_add k _ data (by omega)

/-! ## `parse` answers -/

/-- `RespProtocol::parse` answers on every input, whatever count an array header declares and
however deep arrays nest: with a value that consumed at least three bytes of the input, with
`std::nullopt`, or by throwing a `std::runtime_error`; and every budget beyond the input's length
gives that answer. `parseArray` calls `parse` only on strictly shorter suffixes
`data.substr(current_pos)`. Each round of its loop returns, or moves on by at least three bytes
and stays within the input, so its rounds are bounded by the bytes left, not by the count. -/
theorem parse_terminates (data : Bytes) :
    (∀ fuel, data.length < fuel → parseAt fuel data = parse data) ∧
    ((∃ v n, parse data = .ok (some (v, n)) ∧ 3 ≤ n ∧ n ≤ data.length) ∨
      parse data = .ok none ∨ ∃ what, parse data = .error (.runtimeError what)) ∧
    (∀ p p' : Bytes → ParseResult RespValue,
      (∀ q, 0 < q → q < data.length → p (data.drop q) = p' (data.drop q)) →
        parseArray p data = parseArray p' data) ∧
    (∀ fuel pos v n, parseAt fuel (data.drop pos) = .ok (some (v, n)) →
      3 ≤ n ∧ pos + n ≤ data.length) ∧
    (∀ fuel count pos, parseElements (parseAt fuel) data count pos =
      parseElements (parseAt fuel) data (min count ((data.length - pos) / 3 + 1)) pos) := by
  refine ⟨fun fuel h => parseAt_eq_parse (by omega), ?_,
    fun p p' h => parseArray_congr fun q hq => h q (by omega), fun fuel pos v n h => ?_,
    fun fuel => parseElements_min_rounds (parseAt_consumes fuel) data⟩
  · rcases hp : parse data with (what | _) | _ | ⟨v, n⟩
    · exact .inr (.inr ⟨what, rfl⟩)
    · exact absurd hp (parse_ne_outOfFuel data)
    · exact .inr (.inl rfl)
    · exact .inl ⟨v, n, rfl, parseAt_consumes _ _ _ _ hp⟩
  · have := parseAt_consumes fuel _ _ _ h
    rw [List.length_drop] at this
    omega

/-- `*2147483647\r\n+\r\n`: an array declaring `INT_MAX` elements, of which one has come;
`parse` asks for more bytes after two rounds. -/
theorem parse_int_max_count :
    parse (ascii "*2147483647\r\n+\r\n") = .ok none ∧
      ((∀ fuel, (ascii "*2147483647\r\n+\r\n").length < fuel →
          parseAt fuel (ascii "*2147483647\r\n+\r\n") = parse (ascii "*2147483647\r\n+\r\n")) ∧
        ((∃ v n, parse (ascii "*2147483647\r\n+\r\n") = .ok (some (v, n)) ∧ 3 ≤ n ∧
            n ≤ (ascii "*2147483647\r\n+\r\n").length) ∨
          parse (ascii "*2147483647\r\n+\r\n") = .ok none ∨
            ∃ what, parse (ascii "*2147483647\r\n+\r\n") = .error (.runtimeError what)) ∧
        (∀ p p' : Bytes → ParseResult RespValue,
          (∀ q, 0 < q → q < (ascii "*2147483647\r\n+\r\n").length →
            p ((ascii "*2147483647\r\n+\r\n").drop q) = p' ((ascii "*2147483647\r\n+\r\n").drop q)) →
            parseArray p (ascii "*2147483647\r\n+\r\n") = parseArray p' (ascii "*2147483647\r\n+\r\n")) ∧
        (∀ fuel pos v n, parseAt fuel ((ascii "*2147483647\r\n+\r\n").drop pos) = .ok (some (v, n)) →
          3 ≤ n ∧ pos + n ≤ (ascii "*2147483647\r\n+\r\n").length) ∧
        (∀ fuel count pos, parseElements (parseAt fuel) (ascii "*2147483647\r\n+\r\n") count pos =
          parseElements (parseAt fuel) (ascii "*2147483647\r\n+\r\n")
            (min count (((ascii "*2147483647\r\n+\r\n").length - pos) / 3 + 1)) pos)) :=
  ⟨rfl, parse_terminates _⟩

/-! ## How deep the recursion goes -/

/-- Arrays of one element nested `k` deep around the empty simple string: `*1\r\n` `k` times,
then `+\r\n`. -/
def nestedArrays : Nat → Bytes
  | 0 => ascii "+\r\n"
  | k + 1 => ascii "*1\r\n" ++ nestedArrays k

/-- INTERNAL: the size of `k` nested one-element arrays around an empty one. -/
theorem length_nestedArrays (k : Nat) : (nestedArrays k).length = 4 * k + 3 := by
  induction k with
  | zero => rfl
  | succ k ih =>
    rw [nestedArrays, List.length_append, ih, show (ascii "*1\r\n").length = 4 from rfl]
    omega

/-- INTERNAL: an array of one element, `*1\r\n` before it, runs out of budget where its element
does. -/
theorem parseAt_array_one {k : Nat} {rest : Bytes} (hr : rest ≠ [])
    (h : parseAt k rest = .error .outOfFuel) :
    parseAt (k + 1) (42 :: ([49] ++ crlf ++ rest)) = .error .outOfFuel := by
  have hf : findCRLF (42 :: ([49] ++ crlf ++ rest)) 1 = some 2 := findCRLF_line (by decide) 42 _
  have hl : lineAt (42 :: ([49] ++ crlf ++ rest)) 2 = toDecimal 1 := rfl
  have he : parseElements (parseAt k) (42 :: ([49] ++ crlf ++ rest)) 1 4 = .error .outOfFuel := by
    have : 4 < (42 :: ([49] ++ crlf ++ rest)).length := by
      simp only [List.length_cons, List.length_append, List.length_singleton, crlf, List.length_nil]
      have := List.length_pos.2 hr
      omega
    rw [parseElements, if_neg (by omega), show (42 :: ([49] ++ crlf ++ rest)).drop 4 = rest from rfl, h]
  rw [parseAt_array, parseArray, hf]
  simp only [hl, stoi_toDecimal (show 1 < 2147483648 by decide)]
  rw [if_neg (by decide), if_neg (by decide), Int.toNat_ofNat, he]
  rfl

/-- INTERNAL: `k` levels of budget run out on arrays nested `k` deep. -/
theorem parseAt_nestedArrays (k : Nat) : parseAt k (nestedArrays k) = .error .outOfFuel := by
  induction k with
  | zero => rfl
  | succ k ih =>
    rw [show nestedArrays (k + 1) = 42 :: ([49] ++ crlf ++ nestedArrays k) from rfl]
    exact parseAt_array_one (List.ne_nil_of_length_pos (by rw [length_nestedArrays]; omega)) ih

/-- The recursion of `parse` on `n` bytes is at most `n / 4 + 1` levels deep: with that budget
the answer is already `parse`'s. Arrays nested `k` deep take all of it: one level less runs out. -/
theorem parse_depth_bound :
    (∀ (data : Bytes) (fuel : Nat), data.length / 4 + 1 ≤ fuel → parseAt fuel data = parse data) ∧
    ∀ k, (nestedArrays k).length / 4 + 1 = k + 1 ∧ parseAt k (nestedArrays k) = .error .outOfFuel :=
  ⟨fun _ _ h => parseAt_eq_parse h, fun k =>
    ⟨by rw [length_nestedArrays]; omega, parseAt_nestedArrays k⟩⟩

/-- Arrays nested two deep: three levels give `parse`'s answer, two run out. -/
theorem parse_nested_two :
    (nestedArrays 2).length / 4 + 1 ≤ 3 ∧ parseAt 3 (nestedArrays 2) = parse (nestedArrays 2) ∧
      parseAt 2 (nestedArrays 2) = .error .outOfFuel :=
  ⟨by decide, parse_depth_bound.1 _ _ (by decide), (parse_depth_bound.2 2).2⟩

end RespProtocol

end BlinkDb
