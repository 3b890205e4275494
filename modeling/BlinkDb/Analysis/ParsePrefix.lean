import BlinkDb.Analysis.ParseTermination

/-!
# An answer of `parse` is final

`RespProtocol::parse` is incremental: on an input that holds no whole value yet it answers
`std::nullopt`, and the caller is to try again with more bytes. That contract needs the other
answers to be final: once `parse` has read a value, or thrown, on some bytes, no bytes that
arrive after them change its answer (`parse_append`). The value and the count of bytes consumed
stay the same, and so does the text of what it throws.

Each parser looks at the input only up to the end of what it reads: the first line end, which
more bytes do not move (`findCRLF_append`), the line before it, and the payload of a bulk string,
which lies within the input when it has arrived. `parseArray` reads its elements from suffixes of
the input, so its case follows from the others by induction on the fuel of its recursion
(`parseAt_append`).
-/

set_option autoImplicit false

open scoped List

namespace BlinkDb

namespace RespProtocol

/-- INTERNAL: a search that found the needle in a text finds it at the same place in the text
followed by more bytes. -/
theorem findFrom_append {needle : Bytes} (hne : needle ≠ []) (more : Bytes) :
    ∀ {l : Bytes} {i p : Nat}, findFrom needle l i = some p → findFrom needle (l ++ more) i = some p
  | [], i, p, h => by simp [findFrom, hne] at h
  | b :: rest, i, p, h => by
    have hb := findFrom_bounds h
    rw [findFrom] at h
    rw [List.cons_append, findFrom]
    split_ifs at h with h1
    · rw [if_pos (show needle.isPrefixOf (b :: (rest ++ more)) from List.isPrefixOf_iff_prefix.2
        ((List.isPrefixOf_iff_prefix.1 h1).trans (List.prefix_append _ _)))]
      exact h
    · have hlen : needle.length ≤ (b :: rest).length := by simp only [List.length_cons] at hb ⊢; omega
      rw [if_neg fun (h2 : needle.isPrefixOf (b :: (rest ++ more))) => h1 (List.isPrefixOf_iff_prefix.2
        (List.prefix_of_prefix_length_le (List.isPrefixOf_iff_prefix.1 h2) (List.prefix_append _ _) hlen))]
      exact findFrom_append hne more h

/-- `findCRLF` finds a line end of the input at the same place with more bytes after it. -/
theorem findCRLF_append {d : Bytes} {start p : Nat} (h : findCRLF d start = some p) (more : Bytes) :
    findCRLF (d ++ more) start = some p := by
  unfold findCRLF at h ⊢
  split_ifs at h with hl
  rw [if_neg (by simp only [List.length_append]; omega), List.drop_append_of_le_length (by omega)]
  exact findFrom_append (by simp [crlf]) more h

variable {d : Bytes} (more : Bytes)

/-- INTERNAL: the first line of the input, and where it ends, with more bytes after it. -/
theorem findCRLF_lineAt_append {p : Nat} (hf : findCRLF d 1 = some p) :
    findCRLF (d ++ more) 1 = some p ∧ lineAt (d ++ more) p = lineAt d p := by
  have hb := findCRLF_bounds hf
  refine ⟨findCRLF_append hf more, ?_⟩
  rw [lineAt, lineAt, List.drop_append_of_le_length (by omega),
    List.take_append_of_le_length (by simp only [List.length_drop]; omega)]

/-- INTERNAL: `rethrow` answers `std::nullopt` only when the block it wraps does. -/
theorem ne_none_of_rethrow {α : Type} {what : String} {x : ParseResult α}
    (h : rethrow what x ≠ .ok none) : x ≠ .ok none := by
  rintro rfl
  exact h rfl

/-! ## The parsers of one line -/

/-- INTERNAL: a simple string that parses to an answer parses alike with more bytes after it. -/
theorem parseSimpleString_append (h : parseSimpleString d ≠ .ok none) :
    parseSimpleString (d ++ more) = parseSimpleString d := by
  unfold parseSimpleString at h ⊢
  rcases hf : findCRLF d 1 with _ | p
  · simp [hf] at h
  · obtain ⟨h1, h2⟩ := findCRLF_lineAt_append more hf
    simp only [h1, h2]

/-- INTERNAL: an error that parses to an answer parses alike with more bytes after it. -/
theorem parseError_append (h : parseError d ≠ .ok none) : parseError (d ++ more) = parseError d := by
  unfold parseError at h ⊢
  rcases hf : findCRLF d 1 with _ | p
  · simp [hf] at h
  · obtain ⟨h1, h2⟩ := findCRLF_lineAt_append more hf
    simp only [h1, h2]

/-- INTERNAL: an integer that parses to an answer parses alike with more bytes after it. -/
theorem parseInteger_append (h : parseInteger d ≠ .ok none) :
    parseInteger (d ++ more) = parseInteger d := by
  unfold parseInteger at h ⊢
  rcases hf : findCRLF d 1 with _ | p
  · simp [hf] at h
  · obtain ⟨h1, h2⟩ := findCRLF_lineAt_append more hf
    simp only [h1, h2]

/-- A bulk string whose payload has arrived is read from the input alone. -/
theorem parseBulkString_append (h : parseBulkString d ≠ .ok none) :
    parseBulkString (d ++ more) = parseBulkString d := by
  unfold parseBulkString at h ⊢
  rcases hf : findCRLF d 1 with _ | p
  · simp [hf] at h
  obtain ⟨hf', hl⟩ := findCRLF_lineAt_append more hf
  simp only [hf] at h
  simp only [hf', hl]
  congr 1
  have h' := ne_none_of_rethrow h
  rcases hs : stoi (lineAt d p) with _ | len
  · rfl
  rw [hs] at h'
  dsimp only at h' ⊢
  rw [List.length_append]
  split_ifs at h' ⊢
  · rfl
  · rfl
  · rfl
  · omega
  · exact absurd rfl h'
  · rw [List.drop_append_of_le_length (by omega),
      List.take_append_of_le_length (by simp only [List.length_drop]; omega)]

/-! ## Arrays -/

/-- The element loop, with an element parser whose answers on the suffixes of the input are
final: its own answers are. -/
theorem parseElements_append {p : Bytes → ParseResult RespValue}
    (hp : ∀ q, p (d.drop q) ≠ .ok none → p (d.drop q ++ more) = p (d.drop q)) :
    ∀ (count pos : Nat), parseElements p d count pos ≠ .ok none →
      parseElements p (d ++ more) count pos = parseElements p d count pos
  | 0, _, _ => rfl
  | count + 1, pos, h => by
    rw [parseElements] at h
    rw [parseElements, parseElements]
    by_cases hl : d.length ≤ pos
    · rw [if_pos hl] at h; exact absurd rfl h
    rw [if_neg hl] at h ⊢
    have hv : p (d.drop pos) ≠ .ok none := fun hv => h (by rw [hv])
    rw [if_neg (by simp only [List.length_append]; omega), List.drop_append_of_le_length (by omega),
      hp pos hv]
    rcases hx : p (d.drop pos) with e | _ | ⟨v, used⟩
    · rfl
    · exact absurd hx hv
    rw [hx] at h
    dsimp only at h ⊢
    have hr : parseElements p d count (pos + used) ≠ .ok none := fun hr => h (by rw [hr])
    rw [parseElements_append hp count (pos + used) hr]

/-- INTERNAL: an array that parses to an answer parses alike with more bytes after it, when its
elements do. -/
theorem parseArray_append {p : Bytes → ParseResult RespValue}
    (hp : ∀ q, p (d.drop q) ≠ .ok none → p (d.drop q ++ more) = p (d.drop q))
    (h : parseArray p d ≠ .ok none) : parseArray p (d ++ more) = parseArray p d := by
  unfold parseArray at h ⊢
  rcases hf : findCRLF d 1 with _ | c
  · simp [hf] at h
  obtain ⟨hf', hl⟩ := findCRLF_lineAt_append more hf
  simp only [hf] at h
  simp only [hf', hl]
  congr 1
  have h' := ne_none_of_rethrow h
  rcases hs : stoi (lineAt d c) with _ | len
  · rfl
  rw [hs] at h'
  dsimp only at h' ⊢
  split_ifs at h' ⊢
  · rfl
  · rfl
  · have hr : parseElements p d len.toNat (c + 2) ≠ .ok none := fun hr => h' (by rw [hr])
    rw [parseElements_append more hp _ _ hr]

/-! ## `parse` -/

/-- With any budget, an answer of the model's `parse` other than `std::nullopt` is final. -/
theorem parseAt_append : ∀ (fuel : Nat) (d : Bytes), parseAt fuel d ≠ .ok none →
    parseAt fuel (d ++ more) = parseAt fuel d
  | 0, _, _ => rfl
  | _ + 1, [], h => absurd rfl h
  | fuel + 1, t :: d, h => by
    rw [parseAt] at h
    rw [List.cons_append, parseAt, parseAt, ← List.cons_append]
    by_cases h43 : t = 43
    · simp only [if_pos h43] at h ⊢; exact parseSimpleString_append more h
    simp only [if_neg h43] at h ⊢
    by_cases h45 : t = 45
    · simp only [if_pos h45] at h ⊢; exact parseError_append more h
    simp only [if_neg h45] at h ⊢
    by_cases h58 : t = 58
    · simp only [if_pos h58] at h ⊢; exact parseInteger_append more h
    simp only [if_neg h58] at h ⊢
    by_cases h36 : t = 36
    · simp only [if_pos h36] at h ⊢; exact parseBulkString_append more h
    simp only [if_neg h36] at h ⊢
    by_cases h42 : t = 42
    · simp only [if_pos h42] at h ⊢; exact parseArray_append more (fun q => parseAt_append fuel _) h
    simp only [if_neg h42] at h ⊢

/-- Once `parse` has answered with a value or thrown, on some bytes, any bytes that arrive after
them leave its answer as it was: the same value and count of bytes consumed, or the same
exception. -/
theorem parse_append (d more : Bytes) (h : parse d ≠ .ok none) : parse (d ++ more) = parse d := by
  have hF : d.length / 4 + 1 ≤ (d ++ more).length + 1 := by
    simp only [List.length_append]; omega
  show parseAt ((d ++ more).length + 1) (d ++ more) = parse d
  rw [← parseAt_eq_parse hF] at h ⊢
  exact parseAt_append more _ d h

/-- A one-element array, followed by the first bytes of the next reply: `parse` reads the same
array and the same eight bytes as without them. -/
theorem parse_array_then_partial_reply :
    parse (ascii "*1\r\n:7\r\n") = .ok (some (.array [.integer 7], 8)) ∧
      parse (ascii "*1\r\n:7\r\n" ++ ascii "+O") = parse (ascii "*1\r\n:7\r\n") :=
  have h : parse (ascii "*1\r\n:7\r\n") = .ok (some (.array [.integer 7], 8)) := rfl
  ⟨h, parse_append _ _ (by rw [h]; exact fun h => nomatch h)⟩

end RespProtocol

end BlinkDb
