import BlinkDb.Analysis.RespRoundTrip
import BlinkDb.Analysis.ServerLoop

/-!
# The answers of `execute_command`

`Server::execute_command` and the three handlers `Server::init` registers answer with hand-written
RESP-2 text. Each answer is `encode` of a value: `+OK`, an error line, the null bulk string, the
value `GET` found as a bulk string, or the integer `DEL` returns (`executeCommand_encodes`). When
the command name holds no `"\r\n"` and the value `GET` returns is shorter than `2^31` bytes, that
value is one `encodable` accepts, so `parse` reads the answer back whole, as one frame
(`executeCommand_one_frame`).

The name of an unknown command is copied into its error line as it is. A name that holds `"\r\n"`,
which a bulk string can carry, ends the error line early: `parse` reads the error up to the
name's `"\r\n"` and leaves the rest of the answer to be read as the next reply
(`unknown_command_splits_reply`).

`SET` reads the ttl after `EX` with `std::stoi` only when an argument follows the `EX`
(`setHandler_ex`): a ttl `std::stoi` rejects is answered with the error and leaves the engine as
it was, and every other one is stored. So `SET key value EX` stores the value with the sentinel
ttl, and every `int` numeral is taken as the ttl, negative ones included
(`set_ex_unchecked`).
-/

set_option autoImplicit false

namespace BlinkDb

open RespProtocol

/-! ## Lines without `"\r\n"` -/

/-- INTERNAL: two texts without `"\r\n"` hold none when put together, unless the first ends with
`'\r'` and the second starts with `'\n'`. -/
theorem not_crlf_infix_append {a b : Bytes} (ha : ¬ crlf <:+: a) (hb : ¬ crlf <:+: b)
    (hab : a.getLast? ≠ some 13 ∨ b.head? ≠ some 10) : ¬ crlf <:+: a ++ b := by
  induction a with
  | nil => simpa using hb
  | cons x a ih =>
    rw [List.infix_cons_iff, not_or, crlf_prefix_cons_iff] at ha
    rw [List.cons_append, List.infix_cons_iff, not_or, crlf_prefix_cons_iff]
    cases a with
    | nil => exact ⟨fun h => by simp_all, by simpa using hb⟩
    | cons y a =>
      refine ⟨fun h => ha.1 ⟨h.1, by simpa using h.2⟩, ih ha.2 ?_⟩
      simpa only [List.getLast?_cons_cons] using hab

/-- INTERNAL: a whole encoding parses back to its value, all of it consumed. -/
theorem parse_encode_whole {v : RespValue} (hv : encodable v = true) :
    parse (encode v) = .ok (some (v, (encode v).length)) := by
  have h := parseAt_encode_append _ v hv (Nat.lt_succ_self _) []
  rwa [List.append_nil] at h

namespace Server

variable {T : Type} (ops : TableOps T) (now : Int)

/-! ## `SET` with `EX` -/

/-- `SET key value EX t …`: the ttl is `std::stoi(t)`. Where `std::stoi` throws, the answer is
the error and the engine is left as it was; otherwise the value is stored with that ttl. -/
theorem setHandler_ex (eng : StorageEngine T) (key value t : Bytes) (rest : List Bytes) :
    setHandler ops now eng (key :: value :: ascii "EX" :: t :: rest) =
      match stoi t with
      | none => (ascii "-ERR invalid expire time in \x27set\x27 command\r\n", eng)
      | some ttl => (ascii "+OK\r\n", eng.set ops key value ttl now) :=
  rfl

/-- `SET key value EX` with nothing after the `EX` stores the value with the sentinel ttl, and
`SET key value EX t` stores it with every `int` that `t` is the numeral of, negative ones
included: both answer `+OK`. -/
theorem set_ex_unchecked (eng : StorageEngine T) (key value : Bytes) (ttl : Int)
    (h1 : -2147483648 ≤ ttl) (h2 : ttl < 2147483648) :
    setHandler ops now eng [key, value, ascii "EX"] =
        (ascii "+OK\r\n", eng.set ops key value secondsMax now) ∧
      setHandler ops now eng [key, value, ascii "EX", toDecimalInt ttl] =
        (ascii "+OK\r\n", eng.set ops key value ttl now) := by
  refine ⟨rfl, ?_⟩
  rw [setHandler_ex, stoi_toDecimalInt h1 h2]

/-- `SET k v EX -5` on a fresh engine stores `v` with the ttl `-5`. -/
theorem set_ex_minus_five :
    (-2147483648 : Int) ≤ -5 ∧ (-5 : Int) < 2147483648 ∧
      (setHandler (HashTable.ops fun _ => 0) 0 (StorageEngine.init 1024) [[107], [118], ascii "EX"] =
          (ascii "+OK\r\n", (StorageEngine.init 1024).set (HashTable.ops fun _ => 0) [107] [118]
            secondsMax 0) ∧
        setHandler (HashTable.ops fun _ => 0) 0 (StorageEngine.init 1024)
            [[107], [118], ascii "EX", toDecimalInt (-5)] =
          (ascii "+OK\r\n", (StorageEngine.init 1024).set (HashTable.ops fun _ => 0) [107] [118]
            (-5) 0)) :=
  ⟨by decide, by decide, set_ex_unchecked _ _ _ _ _ (-5) (by decide) (by decide)⟩

/-! ## A command name with `"\r\n"` -/

/-- INTERNAL: a name with a `'\r'` is none of the handlers' names. -/
theorem ne_handler_names {command : Bytes} (h : (13 : UInt8) ∈ command) :
    command ≠ ascii "SET" ∧ command ≠ ascii "GET" ∧ command ≠ ascii "DEL" := by
  refine ⟨?_, ?_, ?_⟩ <;> rintro rfl <;> revert h <;> decide

/-- A command with no handler whose name holds `"\r\n"`: the answer is one error line with the
name in it, but `parse` ends the error at the name's `"\r\n"`, and consumes the answer only up to
there. The rest of the answer is left to be read as the next reply. -/
theorem unknown_command_splits_reply (eng : StorageEngine T) {pre : Bytes} (post : Bytes)
    (args : List Bytes) (hpre : ¬ crlf <:+: pre) :
    parse (executeCommand ops now eng (pre ++ crlf ++ post) args).1 =
        .ok (some (.error (ascii "ERR unknown command \x27" ++ pre),
          (ascii "-ERR unknown command \x27" ++ pre ++ crlf).length)) ∧
      (ascii "-ERR unknown command \x27" ++ pre ++ crlf).length <
        (executeCommand ops now eng (pre ++ crlf ++ post) args).1.length := by
  obtain ⟨hs, hg, hd⟩ := ne_handler_names (show (13 : UInt8) ∈ pre ++ crlf ++ post by simp [crlf])
  have hline : ¬ crlf <:+: ascii "ERR unknown command \x27" ++ pre :=
    not_crlf_infix_append (by decide) hpre (.inl (by decide))
  have hr : ascii "-ERR unknown command \x27" ++ (pre ++ crlf ++ post) ++ ascii "\x27\r\n" =
      45 :: ((ascii "ERR unknown command \x27" ++ pre) ++ crlf ++ (post ++ ascii "\x27\r\n")) := by
    simp only [List.append_assoc]; rfl
  have hlen : (ascii "-ERR unknown command \x27").length =
      (ascii "ERR unknown command \x27").length + 1 := rfl
  have hend : (ascii "\x27\r\n").length = 3 := rfl
  rw [executeCommand_unknown ops now eng args hs hg hd, hr]
  refine ⟨?_, by simp [crlf, hlen, hend]; omega⟩
  rw [parse, parseAt_error, parseError_line (h := hline)]
  simp [crlf, hlen]; omega

/-- The name `"A\r\nB"`: the answer `-ERR unknown command 'A\r\nB'\r\n` is read as the error
`ERR unknown command 'A`, and the bytes `B'\r\n` are left over. -/
theorem unknown_command_a_crlf_b :
    ¬ crlf <:+: [65] ∧
      parse (executeCommand (HashTable.ops fun _ => 0) 0 (StorageEngine.init 1024)
          ([65] ++ crlf ++ [66]) []).1 =
        .ok (some (.error (ascii "ERR unknown command \x27" ++ [65]),
          (ascii "-ERR unknown command \x27" ++ [65] ++ crlf).length)) ∧
      (ascii "-ERR unknown command \x27" ++ [65] ++ crlf).length <
        (executeCommand (HashTable.ops fun _ => 0) 0 (StorageEngine.init 1024)
          ([65] ++ crlf ++ [66]) []).1.length :=
  ⟨by decide, unknown_command_splits_reply _ _ _ [66] [] (by decide)⟩

/-! ## Every answer is an encoding -/

section Encodes

variable (eng : StorageEngine T)

/-- INTERNAL: `SET` answers with `+OK` or an error line. -/
theorem setHandler_encodes (args : List Bytes) :
    ∃ v, encodable v = true ∧ (setHandler ops now eng args).1 = encode v := by
  match args with
  | [] | [_] => exact ⟨.error (ascii "ERR wrong number of arguments for \x27set\x27 command"), by decide, rfl⟩
  | key :: value :: rest =>
    simp only [setHandler]
    split
    · exact ⟨.error (ascii "ERR invalid expire time in \x27set\x27 command"), by decide, rfl⟩
    · exact ⟨.simpleString (ascii "OK"), by decide, rfl⟩

/-- INTERNAL: `GET` answers with the null bulk string, the value as a bulk string, or an error
line. -/
theorem getHandler_encodes (args : List Bytes)
    (hget : ∀ key, args = [key] → (eng.get ops key now now).1.length < 2147483648) :
    ∃ v, encodable v = true ∧ (getHandler ops now eng args).1 = encode v := by
  match args with
  | [key] =>
    simp only [getHandler]
    split
    · exact ⟨.nullBulkString, rfl, rfl⟩
    · exact ⟨.bulkString _, by simpa [encodable] using hget key rfl, by
        simp [encode, encodeBulkString]⟩
  | [] | _ :: _ :: _ =>
    exact ⟨.error (ascii "ERR wrong number of arguments for \x27get\x27 command"), by decide, rfl⟩

/-- INTERNAL: `DEL` answers with the integer `1` or `0`, or an error line. -/
theorem delHandler_encodes (args : List Bytes) :
    ∃ v, encodable v = true ∧ (delHandler ops eng args).1 = encode v := by
  match args with
  | [key] =>
    refine ⟨.integer (if (eng.del ops key).1 then 1 else 0), rfl, ?_⟩
    simp only [delHandler]
    cases (eng.del ops key).1 <;> rfl
  | [] | _ :: _ :: _ =>
    exact ⟨.error (ascii "ERR wrong number of arguments for \x27del\x27 command"), by decide, rfl⟩

/-- Every answer of `execute_command` is `encode` of a value `parse` reads back, when the name
holds no `"\r\n"` and `GET` finds no value of `2^31` bytes or more. -/
theorem executeCommand_encodes (command : Bytes) (args : List Bytes) (hc : ¬ crlf <:+: command)
    (hget : ∀ key, args = [key] → (eng.get ops key now now).1.length < 2147483648) :
    ∃ v, encodable v = true ∧ (executeCommand ops now eng command args).1 = encode v := by
  unfold executeCommand
  split
  · exact setHandler_encodes ops now eng args
  split
  · exact getHandler_encodes ops now eng args hget
  split
  · exact delHandler_encodes ops eng args
  refine ⟨.error (ascii "ERR unknown command \x27" ++ command ++ ascii "\x27"), ?_, ?_⟩
  · simp only [encodable, decide_eq_true_eq]
    refine not_crlf_infix_append (not_crlf_infix_append (by decide) hc (.inl (by decide)))
      (by decide) (.inr (by decide))
  · simp only [encode, encodeError, List.cons_append, List.append_assoc]; rfl

/-- Every answer of `execute_command` is one RESP-2 frame: `parse` reads it back as the value it
encodes, consuming all of it, when the name holds no `"\r\n"` and `GET` finds no value of `2^31`
bytes or more. -/
theorem executeCommand_one_frame (command : Bytes) (args : List Bytes) (hc : ¬ crlf <:+: command)
    (hget : ∀ key, args = [key] → (eng.get ops key now now).1.length < 2147483648) :
    ∃ v, (executeCommand ops now eng command args).1 = encode v ∧
      parse (executeCommand ops now eng command args).1 =
        .ok (some (v, (executeCommand ops now eng command args).1.length)) := by
  obtain ⟨v, hv, he⟩ := executeCommand_encodes ops now eng command args hc hget
  rw [he]
  exact ⟨v, rfl, parse_encode_whole hv⟩

end Encodes

/-- `GET k` on a fresh engine: the answer `$-1\r\n` is one frame. -/
theorem get_fresh_one_frame :
    ¬ crlf <:+: ascii "GET" ∧
      (∀ key, [[107]] = [key] → ((StorageEngine.init 1024).get (HashTable.ops fun _ => 0) key 0 0).1.length <
        2147483648) ∧
      ∃ v, (executeCommand (HashTable.ops fun _ => 0) 0 (StorageEngine.init 1024) (ascii "GET")
          [[107]]).1 = encode v ∧
        parse (executeCommand (HashTable.ops fun _ => 0) 0 (StorageEngine.init 1024) (ascii "GET")
            [[107]]).1 =
          .ok (some (v, (executeCommand (HashTable.ops fun _ => 0) 0 (StorageEngine.init 1024)
            (ascii "GET") [[107]]).1.length)) :=
  have hget : ∀ key, [[107]] = [key] →
      ((StorageEngine.init 1024).get (HashTable.ops fun _ => 0) key 0 0).1.length < 2147483648 := by
    rintro key ⟨⟩; decide
  ⟨by decide, hget, executeCommand_one_frame _ _ _ _ _ (by decide) hget⟩

end Server

end BlinkDb
