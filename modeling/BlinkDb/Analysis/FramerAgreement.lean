import BlinkDb.Analysis.Framing

/-!
# `process_commands` against `parse`

`Connection::process_commands` frames the input buffer by hand; `RespProtocol::parse` is the
protocol's own reader. Both read a header's number with `std::stoi` from the same bytes, and both
take a bulk string's payload by its length and skip the two bytes after it. On every buffer that
starts with `'*'` and on which `parse` does not throw, the first round of the framer's loop is
determined by what `parse` returns (`processLoop_parse`):

* `parse` needs more bytes: the loop returns `true` and changes nothing;
* an array of bulk strings, the null bulk string read as `""`: the loop executes the first as
  the command in upper case with the others as its arguments, and starts again after the bytes
  `parse` consumed (`processCommands_agrees_with_parse`);
* an array with any other element: the loop returns `true` and changes nothing
  (`processCommands_stalls_on_nonbulk`), so the buffer never moves past it;
* the null array or the empty array: the loop returns `false`.

The element loop is compared with `parseElements` one element at a time
(`readBulks_parseElements`): at a `'$'` both read the same length line (`readBulks_bulk`), and at
any other byte the framer stops while `parse` reads some other value (`bulkArg_parseAt`).

Where `parse` throws, the framer does not always close the connection. A bulk string of negative
length below `-1` makes `parse` throw, while the framer reads it as an empty argument and executes
the command (`negative_length_dispatches`).
-/

set_option autoImplicit false

namespace BlinkDb

open RespProtocol

/-! ## Searching from an index -/

/-- INTERNAL: a search started further on finds the same place, further on. -/
theorem findFrom_shift (needle : Bytes) : ∀ (l : Bytes) (i k : Nat),
    findFrom needle l (i + k) = (findFrom needle l i).map (· + k)
  | [], i, k => by simp only [findFrom]; split <;> simp
  | b :: rest, i, k => by
    simp only [findFrom]
    split
    · simp
    · rw [show i + k + 1 = (i + 1) + k by omega, findFrom_shift needle rest]

/-- INTERNAL: `input_buffer_.find("\r\n", pos)` at a type byte is `findCRLF` of the rest of the
buffer from `1`, moved to `pos`. -/
theorem stringFind_crlf_drop {d r : Bytes} {pos : Nat} {t : UInt8} (h : d.drop pos = t :: r)
    (ht : t ≠ 13) : stringFind d crlf pos = (findCRLF (t :: r) 1).map (pos + ·) := by
  have hlen := congrArg List.length h
  simp only [List.length_drop, List.length_cons] at hlen
  have hne : ¬ crlf.isPrefixOf (t :: r) := by simp [crlf, Ne.symm ht]
  rw [stringFind, if_pos (by omega), h, findFrom, if_neg hne, findCRLF]
  cases r with
  | nil => simp [findFrom, crlf]
  | cons b r =>
    rw [if_neg (by simp), List.drop_one, List.tail_cons, Nat.add_comm, findFrom_shift]
    simp [Nat.add_comm]

/-- INTERNAL: the framer's `substr` of a header line is `parse`'s `lineAt` of it. -/
theorem substr_eq_lineAt {d r : Bytes} {pos : Nat} {t : UInt8} (h : d.drop pos = t :: r) (p : Nat) :
    substr d (pos + 1) (pos + p - pos - 1) = lineAt (t :: r) p := by
  rw [substr, lineAt, ← h, List.drop_drop, Nat.add_sub_cancel_left]

namespace Connection

/-! ## One element -/

/-- The argument the framer makes of an element `parse` reads: a bulk string's bytes, and `""`
for the null bulk string, whose length `-1` the framer reads as an empty argument. At any other
value the framer's element loop stops. -/
def bulkArg : RespValue → Option Bytes
  | .bulkString s => some s
  | .nullBulkString => some []
  | _ => none

/-- At a `'$'`, the element loop does what `parseBulkString` read there says: it waits when
`parse` needs more bytes, and otherwise takes the element's argument and goes on after the bytes
`parse` consumed. -/
theorem readBulks_bulk {d r : Bytes} {pos : Nat} (count : Nat) (h : d.drop pos = 36 :: r)
    {x : Option (RespValue × Nat)} (hp : parseBulkString (36 :: r) = .ok x) :
    readBulks d (count + 1) pos =
      x.elim (.ok none) fun e => (bulkArg e.1).elim (.ok none) fun a =>
        (readBulks d count (pos + e.2)).map (Option.map fun res => (a :: res.1, res.2)) := by
  have hlen := congrArg List.length h
  simp only [List.length_drop, List.length_cons] at hlen
  rw [readBulks, if_neg (by rw [getD_of_drop h]; simp; omega), stringFind_crlf_drop h (by decide)]
  rw [parseBulkString] at hp
  rcases hf : findCRLF (36 :: r) 1 with _ | p
  · simp only [hf] at hp; cases hp; rfl
  simp only [hf, Option.map_some'] at hp ⊢
  rw [substr_eq_lineAt h]
  rcases hs : stoi (lineAt (36 :: r) p) with _ | len
  · simp only [hs, rethrow] at hp; cases hp
  simp only [hs, rethrow_eq_ok] at hp ⊢
  by_cases h1 : len = -1
  · rw [if_pos h1] at hp; cases hp
    rw [if_pos (by omega), Nat.add_assoc]
    rfl
  rw [if_neg h1] at hp
  by_cases h2 : len < 0
  · rw [if_pos h2] at hp; cases hp
  have hl : (36 :: r).length = d.length - pos := by simp; omega
  rw [if_neg h2, hl] at hp
  rw [if_neg h2]
  by_cases h3 : d.length - pos < p + 2 + len.toNat + 2
  · rw [if_pos h3] at hp; cases hp
    rw [if_pos (by omega)]; rfl
  · rw [if_neg h3] at hp; cases hp
    rw [if_neg (by omega)]
    simp only [bulkArg, substr, ← h, List.drop_drop]
    congr 2
    omega

/-- INTERNAL: a value `parse` reads at a byte other than `'$'` is not a bulk string. -/
theorem bulkArg_parseAt {f : Nat} {t : UInt8} {r : Bytes} {v : RespValue} {u : Nat} (ht : t ≠ 36)
    (h : parseAt f (t :: r) = .ok (some (v, u))) : bulkArg v = none := by
  cases f with
  | zero => cases h
  | succ f =>
  simp only [parseAt] at h
  split_ifs at h
  · unfold parseSimpleString at h
    split at h <;> simp only [Except.ok.injEq, Option.some.injEq, Prod.mk.injEq, reduceCtorEq] at h
    obtain ⟨rfl, -⟩ := h; rfl
  · unfold parseError at h
    split at h <;> simp only [Except.ok.injEq, Option.some.injEq, Prod.mk.injEq, reduceCtorEq] at h
    obtain ⟨rfl, -⟩ := h; rfl
  · unfold parseInteger at h
    split at h
    · cases h
    split at h <;> simp only [Except.ok.injEq, Option.some.injEq, Prod.mk.injEq, reduceCtorEq] at h
    obtain ⟨rfl, -⟩ := h; rfl
  · unfold parseArray at h
    split at h
    · cases h
    rw [rethrow_eq_ok] at h
    split at h
    · cases h
    split_ifs at h
    · simp only [Except.ok.injEq, Option.some.injEq, Prod.mk.injEq] at h
      obtain ⟨rfl, -⟩ := h; rfl
    split at h <;> simp only [Except.ok.injEq, Option.some.injEq, Prod.mk.injEq, reduceCtorEq] at h
    obtain ⟨rfl, -⟩ := h; rfl

/-! ## The element loop -/

/-- INTERNAL: `parseArray`'s loop reads as many elements as the count says. -/
theorem length_of_parseElements {p : Bytes → ParseResult RespValue} {d : Bytes} :
    ∀ {count pos : Nat} {vs : List RespValue} {e : Nat},
      parseElements p d count pos = .ok (some (vs, e)) → vs.length = count
  | 0, _, _, _, h => by cases h; rfl
  | count + 1, pos, vs, e, h => by
    rw [parseElements] at h
    by_cases hl : d.length ≤ pos
    · rw [if_pos hl] at h; cases h
    rw [if_neg hl] at h
    rcases hv : p (d.drop pos) with _ | _ | ⟨v, u⟩ <;>
      simp only [hv, reduceCtorEq, Except.ok.injEq] at h
    rcases hr : parseElements p d count (pos + u) with _ | _ | ⟨ws, e'⟩ <;>
      simp only [hr, reduceCtorEq, Except.ok.injEq, Option.some.injEq, Prod.mk.injEq] at h
    rw [← h.1, List.length_cons, length_of_parseElements hr]

/-- Wherever `parseArray`'s loop does not throw, the framer's element loop over the same buffer
does what its answer says: it waits when `parse` needs more bytes; it returns the elements'
arguments and the same end when every element is a bulk string; and it waits at the first
element that is not. -/
theorem readBulks_parseElements (f : Nat) (d : Bytes) :
    ∀ (count pos : Nat) {x : Option (List RespValue × Nat)},
      parseElements (parseAt f) d count pos = .ok x →
      readBulks d count pos = .ok (x.bind fun r => (r.1.mapM bulkArg).map fun args => (args, r.2))
  | 0, pos, x, h => by cases h; rfl
  | count + 1, pos, x, h => by
    rw [parseElements] at h
    by_cases hl : d.length ≤ pos
    · rw [if_pos hl] at h; cases h
      rw [readBulks, if_pos (.inl hl)]; rfl
    rw [if_neg hl] at h
    obtain ⟨t, r, hd⟩ : ∃ t r, d.drop pos = t :: r :=
      List.exists_cons_of_ne_nil (by simp only [ne_eq, List.drop_eq_nil_iff]; omega)
    rw [hd] at h
    by_cases ht : t = 36
    · subst ht
      cases f with
      | zero => cases h
      | succ f =>
      rw [parseAt_bulkString] at h
      rcases hb : parseBulkString (36 :: r) with _ | _ | ⟨v, u⟩ <;> simp only [hb, reduceCtorEq] at h
      · cases h
        rw [readBulks_bulk count hd hb]; rfl
      rw [readBulks_bulk count hd hb]
      rcases hrest : parseElements (parseAt (f + 1)) d count (pos + u) with _ | _ | ⟨vs, e⟩ <;>
        simp only [hrest, reduceCtorEq] at h <;> cases h <;>
        rw [Option.elim_some, readBulks_parseElements (f + 1) d count (pos + u) hrest]
      · cases bulkArg v <;> rfl
      · simp only [Option.some_bind, List.mapM_cons]
        rcases bulkArg v with _ | a
        · rfl
        · rcases vs.mapM bulkArg with _ | args <;> rfl
    · rw [readBulks, if_pos (.inr (by rw [getD_of_drop hd]; exact ht))]
      rcases hv : parseAt f (t :: r) with _ | _ | ⟨v, u⟩ <;> simp only [hv, reduceCtorEq] at h
      · cases h; rfl
      have hb := bulkArg_parseAt ht hv
      rcases hrest : parseElements (parseAt f) d count (pos + u) with _ | _ | ⟨vs, e⟩ <;>
        simp only [hrest, reduceCtorEq] at h <;> cases h
      · rfl
      · simp only [Option.some_bind, List.mapM_cons, hb]; rfl

/-! ## The first round of the loop -/

variable {σ : Type} (exec : Executor σ)

/-- On a buffer that starts with `'*'`, wherever `parse` does not throw, the first round of the
framer's loop does what `parse`'s answer says: wait when it needs more bytes; execute an array
of bulk strings and start again after it; wait at an array with another element; close at the
null or the empty array. -/
theorem processLoop_parse (fuel : Nat) (c : Connection) (srv : σ) {r : Bytes}
    (hd : c.inputBuffer = 42 :: r) {x : Option (RespValue × Nat)} (hp : parse c.inputBuffer = .ok x) :
    processLoop exec (fuel + 1) 0 c srv =
      x.elim (true, c, srv) fun res =>
        match res.1 with
        | .array (v :: vs) =>
          ((v :: vs).mapM bulkArg).elim (true, c, srv) fun args =>
            let y := dispatch exec c srv args
            processLoop exec fuel 0 { y.1 with inputBuffer := y.1.inputBuffer.drop res.2 } y.2
        | _ => (false, c, srv) := by
  have h0 : c.inputBuffer.drop 0 = 42 :: r := by rw [List.drop_zero, hd]
  rw [parse, hd, parseAt_array, parseArray] at hp
  rw [processLoop, if_neg (by simp [hd]), if_pos (getD_of_drop h0), stringFind_crlf_drop h0 (by decide)]
  rcases hf : findCRLF (42 :: r) 1 with _ | p
  · simp only [hf] at hp; cases hp; rfl
  simp only [hf, Option.map_some'] at hp ⊢
  rw [substr_eq_lineAt h0]
  rcases hs : stoi (lineAt (42 :: r) p) with _ | len
  · simp only [hs, rethrow] at hp; cases hp
  simp only [hs, rethrow_eq_ok] at hp ⊢
  by_cases h1 : len = -1
  · rw [if_pos h1] at hp; cases hp; rw [if_pos (by omega)]; rfl
  rw [if_neg h1] at hp
  by_cases h2 : len < 0
  · rw [if_pos h2] at hp; cases hp
  rw [if_neg h2] at hp
  rcases he : parseElements (parseAt (42 :: r).length) (42 :: r) len.toNat (p + 2) with
      _ | _ | ⟨ws, e⟩ <;>
    simp only [he, reduceCtorEq] at hp <;> cases hp
  · by_cases h3 : len ≤ 0
    · rw [show len.toNat = 0 by omega] at he; cases he
    rw [if_neg h3, Nat.zero_add, ← hd] at *
    rw [readBulks_parseElements _ _ _ _ he]; rfl
  · by_cases h3 : len ≤ 0
    · rw [show len.toNat = 0 by omega] at he; cases he
      rw [if_pos h3]; rfl
    have hlen := length_of_parseElements he
    obtain ⟨v, vs, rfl⟩ := List.exists_cons_of_ne_nil (show ws ≠ [] by rintro rfl; simp at hlen; omega)
    rw [if_neg h3, Nat.zero_add, ← hd] at *
    rw [readBulks_parseElements _ _ _ _ he]
    simp only [Option.some_bind, Option.elim_some]
    rcases (v :: vs).mapM bulkArg with _ | args <;> rfl

/-- INTERNAL: the arguments of an array of bulk strings are their bytes. -/
theorem mapM_bulkArg_bulkString (ss : List Bytes) : (ss.map .bulkString).mapM bulkArg = some ss := by
  induction ss with
  | nil => rfl
  | cons s ss ih => simp only [List.map_cons, List.mapM_cons, ih]; rfl

/-- INTERNAL: an array with an element that is no bulk string gives the framer no arguments. -/
theorem mapM_bulkArg_eq_none {vs : List RespValue} {v : RespValue} (hv : v ∈ vs)
    (hb : bulkArg v = none) : vs.mapM bulkArg = none := by
  induction vs with
  | nil => cases hv
  | cons w vs ih =>
    rw [List.mapM_cons]
    rcases List.mem_cons.1 hv with rfl | hv
    · rw [hb]; rfl
    · rw [ih hv]; cases bulkArg w <;> rfl

/-- Where `parse` reads an array with an element that is not a bulk string (a simple string, an
error, an integer, an array), `process_commands` returns `true` and leaves the connection and the
server as they were: the buffer keeps the array for good, and no later command is read. -/
theorem processCommands_stalls_on_nonbulk (c : Connection) (srv : σ) {vs : List RespValue}
    {n : Nat} (h42 : c.inputBuffer.head? = some 42)
    (hp : parse c.inputBuffer = .ok (some (.array vs, n)))
    (hv : ∃ v ∈ vs, (∀ s, v ≠ .bulkString s) ∧ v ≠ .nullBulkString) :
    processCommands exec c srv = (true, c, srv) := by
  obtain ⟨r, hd⟩ := List.head?_eq_some_iff.1 h42
  obtain ⟨v, hmem, hs, hn⟩ := hv
  have hb : bulkArg v = none := by cases v <;> simp_all [bulkArg]
  obtain ⟨w, ws, rfl⟩ := List.exists_cons_of_ne_nil (List.ne_nil_of_mem hmem)
  rw [processCommands, processLoop_parse exec _ c srv hd hp]
  simp only [Option.elim_some, mapM_bulkArg_eq_none hmem hb]
  rfl

/-- `"*1\r\n+OK\r\n"`: `parse` reads an array holding the simple string `OK`, and
`process_commands` returns `true` with the buffer as it was. -/
theorem process_array_of_simple_string :
    (⟨.connected, [42, 49, 13, 10, 43, 79, 75, 13, 10], []⟩ : Connection).inputBuffer.head? = some 42 ∧
      parse [42, 49, 13, 10, 43, 79, 75, 13, 10] = .ok (some (.array [.simpleString [79, 75]], 9)) ∧
      (∃ v ∈ [RespValue.simpleString [79, 75]], (∀ s, v ≠ .bulkString s) ∧ v ≠ .nullBulkString) ∧
      processCommands (fun (s : Unit) _ _ => ([], s)) ⟨.connected, [42, 49, 13, 10, 43, 79, 75, 13, 10], []⟩ () =
        (true, ⟨.connected, [42, 49, 13, 10, 43, 79, 75, 13, 10], []⟩, ()) :=
  have hp : parse [42, 49, 13, 10, 43, 79, 75, 13, 10] = .ok (some (.array [.simpleString [79, 75]], 9)) := rfl
  have hv : ∃ v ∈ [RespValue.simpleString [79, 75]], (∀ s, v ≠ .bulkString s) ∧ v ≠ .nullBulkString :=
    ⟨_, List.mem_singleton_self _, fun _ => nofun, nofun⟩
  ⟨rfl, hp, hv, processCommands_stalls_on_nonbulk _ ⟨.connected, _, []⟩ () rfl hp hv⟩

/-- Where `parse` needs more bytes, `process_commands` returns `true` and changes nothing; where
it reads an array of `k ≥ 1` bulk strings `s₁ … sₖ` from the first `n` bytes, `process_commands`
executes `s₁` in upper case with the arguments `s₂ … sₖ`, queues the response, and goes on with
the buffer after those `n` bytes. -/
theorem processCommands_agrees_with_parse (c : Connection) (srv : σ)
    (h42 : c.inputBuffer.head? = some 42) :
    (parse c.inputBuffer = .ok none → processCommands exec c srv = (true, c, srv)) ∧
      ∀ (s : Bytes) (ss : List Bytes) (n : Nat),
        parse c.inputBuffer = .ok (some (.array ((s :: ss).map .bulkString), n)) →
        processCommands exec c srv =
          processLoop exec (2 * c.inputBuffer.length + 1) 0
            { c.addResponse (exec srv (uppercase s) ss).1 with inputBuffer := c.inputBuffer.drop n }
            (exec srv (uppercase s) ss).2 := by
  obtain ⟨r, hd⟩ := List.head?_eq_some_iff.1 h42
  refine ⟨fun hp => ?_, fun s ss n hp => ?_⟩
  · rw [processCommands, processLoop_parse exec _ c srv hd hp]; rfl
  · rw [processCommands, processLoop_parse exec _ c srv hd hp]
    simp only [Option.elim_some, List.map_cons]
    rw [← List.map_cons, mapM_bulkArg_bulkString]
    simp only [Option.elim_some, dispatch, addResponse_inputBuffer]

/-- `GET k` as a client writes it: `process_commands` executes it as `parse` reads it. -/
theorem process_get_agrees :
    (⟨.connected, RespProtocol.encodeCommand (ascii "GET") [[107]], []⟩ : Connection).inputBuffer.head? =
        some 42 ∧
      ((parse (RespProtocol.encodeCommand (ascii "GET") [[107]]) = .ok none →
          processCommands (fun (s : Unit) _ _ => ([], s))
            ⟨.connected, RespProtocol.encodeCommand (ascii "GET") [[107]], []⟩ () =
            (true, ⟨.connected, RespProtocol.encodeCommand (ascii "GET") [[107]], []⟩, ())) ∧
        ∀ (s : Bytes) (ss : List Bytes) (n : Nat),
          parse (RespProtocol.encodeCommand (ascii "GET") [[107]]) =
              .ok (some (.array ((s :: ss).map .bulkString), n)) →
          processCommands (fun (s : Unit) _ _ => ([], s))
              ⟨.connected, RespProtocol.encodeCommand (ascii "GET") [[107]], []⟩ () =
            processLoop (fun (s : Unit) _ _ => ([], s))
              (2 * (RespProtocol.encodeCommand (ascii "GET") [[107]]).length + 1) 0
              { (⟨.connected, RespProtocol.encodeCommand (ascii "GET") [[107]], []⟩ : Connection).addResponse
                  [] with
                inputBuffer := (RespProtocol.encodeCommand (ascii "GET") [[107]]).drop n } ()) :=
  ⟨rfl, processCommands_agrees_with_parse _ ⟨.connected, _, []⟩ () rfl⟩

/-! ## A negative length -/

/-- INTERNAL: a `'\r'`-free numeral of a signed value. -/
theorem not_crlf_infix_toDecimalInt (i : Int) : ¬ crlf <:+: toDecimalInt i :=
  not_crlf_infix_of_not_mem (by unfold toDecimalInt; split <;> simp [not_mem_toDecimal])

/-- INTERNAL: the element loop reads a bulk string of negative length as an empty argument with
no payload, and goes on right after its length line. -/
theorem readBulks_negative {d rest : Bytes} {pos : Nat} (count : Nat) {i : Int}
    (h1 : -2147483648 ≤ i) (h2 : i < 0) (h : d.drop pos = 36 :: (toDecimalInt i ++ crlf ++ rest)) :
    readBulks d (count + 1) pos =
      (readBulks d count (pos + (toDecimalInt i).length + 3)).map
        (Option.map fun res => ([] :: res.1, res.2)) := by
  have hlen := congrArg List.length h
  simp only [List.length_drop, List.length_cons] at hlen
  rw [readBulks, if_neg (by rw [getD_of_drop h]; simp; omega), stringFind_crlf_drop h (by decide),
    findCRLF_line (not_crlf_infix_toDecimalInt i)]
  simp only [Option.map_some']
  rw [substr_eq_lineAt h, lineAt_line, stoi_toDecimalInt h1 (by omega)]
  simp only [if_pos h2]
  congr 2

/-- A command of one bulk string whose length is a negative `int` other than `-1`: `parse`
throws, but `process_commands` reads the element as an empty argument, executes the empty
command, and goes on after the length line. -/
theorem negative_length_dispatches (fuel : Nat) (c : Connection) (srv : σ) {i : Int}
    (h1 : -2147483648 ≤ i) (h2 : i < -1) (rest : Bytes)
    (hc : c.inputBuffer = 42 :: toDecimal 1 ++ crlf ++ (36 :: toDecimalInt i ++ crlf ++ rest)) :
    parse c.inputBuffer = .error (.runtimeError "Invalid array format in RESP data") ∧
      processLoop exec (fuel + 1) 0 c srv =
        processLoop exec fuel 0 { c.addResponse (exec srv [] []).1 with inputBuffer := rest }
          (exec srv [] []).2 := by
  have hd : c.inputBuffer = 42 :: 49 :: 13 :: 10 :: 36 :: (toDecimalInt i ++ crlf ++ rest) := hc
  have hd0 : c.inputBuffer.drop 0 = 42 :: (toDecimal 1 ++ crlf ++ (36 :: (toDecimalInt i ++ crlf ++ rest))) := hd
  have hd4 : c.inputBuffer.drop 4 = 36 :: (toDecimalInt i ++ crlf ++ rest) := by rw [hd]; rfl
  refine ⟨?_, ?_⟩
  · have hbulk : parseBulkString (36 :: (toDecimalInt i ++ crlf ++ rest)) =
        .error (.runtimeError "Invalid bulk string format in RESP data") := by
      simp only [parseBulkString, findCRLF_line (not_crlf_infix_toDecimalInt i), lineAt_line,
        stoi_toDecimalInt h1 (by omega : i < 2147483648), if_neg (show i ≠ -1 by omega),
        if_pos (show i < 0 by omega), rethrow]
    have hf : findCRLF (42 :: 49 :: 13 :: 10 :: 36 :: (toDecimalInt i ++ crlf ++ rest)) 1 = some 2 :=
      findCRLF_line (show ¬ crlf <:+: [49] by decide) 42 _
    have hl : lineAt (42 :: 49 :: 13 :: 10 :: 36 :: (toDecimalInt i ++ crlf ++ rest)) 2 = toDecimal 1 :=
      rfl
    have he : ∀ fuel, parseElements (parseAt (fuel + 1))
        (42 :: 49 :: 13 :: 10 :: 36 :: (toDecimalInt i ++ crlf ++ rest)) 1 4 =
          .error (.runtimeError "Invalid bulk string format in RESP data") := fun _ => by
      rw [parseElements, if_neg (by simp), List.drop_succ_cons, List.drop_succ_cons, List.drop_succ_cons,
        List.drop_succ_cons, List.drop_zero, parseAt_bulkString, hbulk]
    rw [parse, hd, parseAt_array, parseArray, hf]
    simp only [hl, stoi_toDecimal (by decide : 1 < 2147483648)]
    rw [if_neg (by decide), if_neg (by decide), show ((1 : Nat) : Int).toNat = 1 from rfl,
      show 2 + 2 = 4 from rfl, List.length_cons, he]
    rfl
  · obtain ⟨hfind, hstoi⟩ := header_line (by decide) (by decide : 1 < 2147483648) hd0
    rw [processLoop, if_neg (by simp [hd]), if_pos (getD_of_drop hd0), hfind]
    simp only []
    rw [hstoi]
    simp only [Int.toNat_ofNat, show ¬ ((1 : Nat) : Int) ≤ 0 by decide, if_false]
    have hr := readBulks_negative 0 h1 (by omega) hd4
    rw [Nat.zero_add] at hr
    have hrest : c.inputBuffer.drop (4 + (toDecimalInt i).length + 3) = rest :=
      drop_add_of_drop (show c.inputBuffer.drop 4 = (36 :: toDecimalInt i ++ crlf) ++ rest by
        rw [hd4]; simp) (by simp [crlf]; omega)
    rw [show 0 + ((toDecimal 1).length + 1) + 2 = 4 from rfl, hr]
    simp only [readBulks, Except.map, Option.map, dispatch, addResponse_inputBuffer, hrest]
    rfl

end Connection

end BlinkDb
