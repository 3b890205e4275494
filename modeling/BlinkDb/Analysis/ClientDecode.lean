import BlinkDb.Analysis.Replies
import BlinkDb.Analysis.ClientReplies
import BlinkDb.Spec.KvServer

/-!
# The client reads back every reply the server writes

`Client::decode_response` (`client.cpp`) turns one reply into the line the client prints; the
server writes its replies with `RespProtocol::encode` (`resp.cpp`). `replyText` says what that
line is meant to be for each value: the text of a simple string or an integer, an error after
`"Error: "`, the bytes of a bulk string, `NULL` for the null bulk string and the null array,
and the element count of an array.

For every value whose first line the client can read (`decodable`: no `"\r\n"` in the text of a
simple string or an error, a bulk-string length or array count that `std::stoi` reads),
`decode_response` of the encoding followed by any bytes is `replyText` of the value
(`decodeResponse_encode`). A bulk string is taken by its length, so a payload that holds
`"\r\n"` comes back whole. The client looks no further than the first line of an array: its
elements need not be decodable. Every reply of `execute_command` is such an encoding, so the
client reads each reply of the server as its value's line, whatever follows it on the socket
(`decodeResponse_executeCommand`).

Over a session whose every `recv` returns one whole reply, the client of a server that answers
as the key-value map does prints the map's answers: `OK`, the value or `NULL`, `1` or `0`
(`session_shows_kv_answers`).
-/

set_option autoImplicit false

open scoped List

namespace BlinkDb

open RespProtocol

/-- The line `decode_response` is meant to return for a reply. -/
def replyText : RespValue → Bytes
  | .simpleString v => v
  | .error v => ascii "Error: " ++ v
  | .integer x => toDecimalInt x.toInt
  | .bulkString v => v
  | .nullBulkString => ascii "NULL"
  | .array vs => ascii "(Array with " ++ toDecimalInt vs.length ++ ascii " elements)"
  | .nullArray => ascii "NULL"

/-- The replies whose first line `decode_response` reads as the encoder wrote it: no `"\r\n"`
in the text of a simple string or an error, and a bulk-string length or an array count below
`2^31`, in the range of `std::stoi`. -/
def decodable : RespValue → Bool
  | .simpleString v => decide (¬ crlf <:+: v)
  | .error v => decide (¬ crlf <:+: v)
  | .bulkString v => decide (v.length < 2147483648)
  | .array vs => decide (vs.length < 2147483648)
  | _ => true

/-- What `parse` reads back, the client reads too. -/
theorem decodable_of_encodable {v : RespValue} (h : encodable v = true) : decodable v = true := by
  cases v <;> simp_all [encodable, decodable]

namespace Client

/-- INTERNAL: the client finds the end of a first line that holds no `"\r\n"`. -/
theorem stringFind_line {line : Bytes} (h : ¬ crlf <:+: line) (rest : Bytes) :
    stringFind (line ++ crlf ++ rest) crlf 0 = some line.length := by
  rw [stringFind, if_pos (Nat.zero_le _), List.drop_zero, findFrom_append_crlf h, Nat.zero_add]

/-- INTERNAL: the first line, cut out by `substr`. -/
theorem substr_line (line rest : Bytes) : substr (line ++ crlf ++ rest) 0 line.length = line :=
  substr_of_drop (by rw [List.drop_zero, List.append_assoc])

/-- INTERNAL: the length line of a null bulk string or a null array. -/
theorem stoi_neg_one : stoi [45, 49] = some (-1) := by decide

/-- `decode_response` of the encoding of a value the client can read, followed by any bytes,
is the line the value stands for. -/
theorem decodeResponse_encode (v : RespValue) (hv : decodable v = true) (rest : Bytes) :
    decodeResponse (encode v ++ rest) = .ok (replyText v) := by
  cases v with
  | simpleString w =>
    rw [encode, encodeSimpleString_append, decodeResponse, stringFind_line (by simpa [decodable] using hv)]
    dsimp only
    rw [substr_line, if_pos rfl]
    rfl
  | error w =>
    rw [encode, encodeError_append, decodeResponse, stringFind_line (by simpa [decodable] using hv)]
    dsimp only
    rw [substr_line, if_neg (by decide), if_pos rfl]
    rfl
  | integer x =>
    rw [encode, encodeInteger_append, decodeResponse, stringFind_line (not_crlf_infix_toDecimalInt _)]
    dsimp only
    rw [substr_line, if_neg (by decide), if_neg (by decide), if_pos rfl]
    rfl
  | bulkString w =>
    have hlen : w.length < 2147483648 := by simpa [decodable] using hv
    have hpos : ¬ (w.length : Int) < 0 := by omega
    rw [encode, encodeBulkString_append, decodeResponse, stringFind_line (not_crlf_infix_toDecimal _)]
    dsimp only
    rw [substr_line, if_neg (by decide), if_neg (by decide), if_neg (by decide), if_pos rfl,
      stoi_toDecimal hlen]
    dsimp only
    rw [if_neg (show ¬ (w.length : Int) = -1 by omega), if_neg hpos, Int.toNat_ofNat,
      substr_of_drop (b := crlf ++ rest) (by rw [List.drop_left' (by simp [crlf]), List.append_assoc])]
    rfl
  | nullBulkString =>
    rw [encode, encodeNullBulkString_append, decodeResponse, stringFind_line (by decide)]
    dsimp only
    rw [substr_line, if_neg (by decide), if_neg (by decide), if_neg (by decide), if_pos rfl, stoi_neg_one]
    rfl
  | array vs =>
    have hlen : vs.length < 2147483648 := by simpa [decodable] using hv
    rw [encode_array, encodeArray_append, decodeResponse, stringFind_line (not_crlf_infix_toDecimal _)]
    dsimp only
    rw [substr_line, if_neg (by decide), if_neg (by decide), if_neg (by decide), if_neg (by decide),
      if_pos rfl, stoi_toDecimal hlen]
    dsimp only
    rw [if_neg (show ¬ (vs.length : Int) = -1 by omega)]
    rfl
  | nullArray =>
    rw [encode, encodeNullArray_append, decodeResponse, stringFind_line (by decide)]
    dsimp only
    rw [substr_line, if_neg (by decide), if_neg (by decide), if_neg (by decide), if_neg (by decide),
      if_pos rfl, stoi_neg_one]
    rfl

/-- For every engine, clock reading, command name without `"\r\n"` and argument list, where
`GET` finds no value of `2^31` bytes or more, the reply of `execute_command` is the encoding of a
value, and the client reads that reply, followed by any bytes, as the line of the value. -/
theorem decodeResponse_executeCommand {T : Type} (ops : TableOps T) (now : Int)
    (eng : StorageEngine T) (command : Bytes) (args : List Bytes) (hc : ¬ crlf <:+: command)
    (hget : ∀ key, args = [key] → (eng.get ops key now now).1.length < 2147483648) (rest : Bytes) :
    ∃ v, (Server.executeCommand ops now eng command args).1 = encode v ∧
      decodeResponse ((Server.executeCommand ops now eng command args).1 ++ rest) =
        .ok (replyText v) := by
  obtain ⟨v, hv, he⟩ := Server.executeCommand_encodes ops now eng command args hc hget
  exact ⟨v, he, he ▸ decodeResponse_encode v (decodable_of_encodable hv) rest⟩

/-- `SET k v` on a fresh engine, its reply followed on the socket by the next one, `:1\r\n`:
the client reads `OK`. -/
theorem decode_set_reply_then_next :
    ¬ crlf <:+: ascii "SET" ∧
      (∀ key, [[107], [118]] = [key] →
        ((StorageEngine.init 1024).get (HashTable.ops fun _ => 0) key 0 0).1.length < 2147483648) ∧
      ∃ v, (Server.executeCommand (HashTable.ops fun _ => 0) 0 (StorageEngine.init 1024)
          (ascii "SET") [[107], [118]]).1 = encode v ∧
        decodeResponse ((Server.executeCommand (HashTable.ops fun _ => 0) 0 (StorageEngine.init 1024)
          (ascii "SET") [[107], [118]]).1 ++ ascii ":1\r\n") = .ok (replyText v) :=
  have hget : ∀ key, [[107], [118]] = [key] →
      ((StorageEngine.init 1024).get (HashTable.ops fun _ => 0) key 0 0).1.length < 2147483648 := by
    rintro key ⟨⟩
  ⟨by decide, hget, decodeResponse_executeCommand _ _ _ _ _ (by decide) hget _⟩

end Client

namespace KvMap

/-- INTERNAL: a value the map holds after one request it held before, or the request wrote. -/
theorem mem_values_answer {m : KvMap} {req : Request} {v : Bytes} (hv : v ∈ (m.answer req).2.map Prod.snd) :
    v ∈ m.map Prod.snd ∨ ∃ k, req = .set k v := by
  have hsub : ∀ k, (m.filter fun p => p.1 ≠ k).map Prod.snd ⊆ m.map Prod.snd :=
    fun k => ((List.filter_sublist _).map _).subset
  cases req with
  | set k w =>
    simp only [answer, set, List.map_cons, List.mem_cons] at hv
    exact hv.elim (fun h => .inr ⟨k, h ▸ rfl⟩) fun h => .inl (hsub k h)
  | get k => exact .inl hv
  | del k => exact .inl (hsub k hv)

/-- INTERNAL: what the map answers: `OK`, the null bulk string, `1` or `0`, or a bulk string
of a value that the map held or a request wrote. So where every such value has a property `P`,
every bulk-string answer does. -/
theorem serve_answers {P : Bytes → Prop} {m : KvMap} (hm : ∀ v ∈ m.map Prod.snd, P v) {reqs : List Request}
    (hreqs : ∀ k v, Request.set k v ∈ reqs → P v) :
    ∀ a ∈ (m.serve reqs).1, a = .simpleString (ascii "OK") ∨ a = .nullBulkString ∨ a = .integer 1 ∨
      a = .integer 0 ∨ ∃ v, a = .bulkString v ∧ P v := by
  induction reqs generalizing m with
  | nil => simp [serve]
  | cons req reqs ih =>
    simp only [serve, List.mem_cons, forall_eq_or_imp]
    refine ⟨?_, ih (fun v hv => (mem_values_answer hv).elim (hm v) fun ⟨k, hk⟩ =>
      hreqs k v (hk ▸ List.mem_cons_self _ _)) fun k v h => hreqs k v (List.mem_cons_of_mem _ h)⟩
    cases req with
    | set k v => exact .inl rfl
    | get k =>
      simp only [answer]
      split
      · exact .inr (.inl rfl)
      · exact .inr (.inl rfl)
      · exact .inr (.inr (.inr (.inr ⟨_, rfl, hm _ (mem_values_of_lookup ‹_›)⟩)))
    | del k => simp only [answer]; split <;> simp

end KvMap

namespace Client

/-- A client whose every `recv` returns one whole reply sends any key-value requests whose
values hold at most `65525` bytes, to a server that answers them as the map does. Every reply
then fits the `MAX_BUFFER_SIZE - 1` bytes of the client's `recv`, so that transport is a valid
one; and `execute` returns, for each request in order, the line the map's answer stands for:
`OK` for a write, the value or `NULL` for a read, `1` or `0` for a delete. -/
theorem session_shows_kv_answers (reqs : List Request)
    (hv : ∀ k v, Request.set k v ∈ reqs → v.length ≤ 65525) :
    validCuts [] ((KvMap.serve [] reqs).1.map encode) (((KvMap.serve [] reqs).1.map encode).map List.length) =
        true ∧
      session ⟨true⟩ [] ((KvMap.serve [] reqs).1.map encode)
          (((KvMap.serve [] reqs).1.map encode).map List.length) =
        (KvMap.serve [] reqs).1.map fun a => .ok (replyText a) := by
  have hshape := KvMap.serve_answers (P := fun v => v.length ≤ 65525) (m := []) (by simp) hv
  have hfit : ∀ f ∈ (KvMap.serve [] reqs).1.map encode, f ≠ [] ∧ f.length ≤ maxBufferSize - 1 := by
    simp only [List.mem_map]
    rintro f ⟨a, ha, rfl⟩
    refine ⟨encode_ne_nil a, ?_⟩
    rcases hshape a ha with rfl | rfl | rfl | rfl | ⟨v, rfl, hlen⟩
    any_goals decide
    have hdig := length_toDecimal_le (show v.length < 10 ^ (4 + 1) by omega)
    simp only [encode, encodeBulkString, crlf, List.length_cons, List.length_append, List.length_nil,
      maxBufferSize]
    omega
  refine ⟨validCuts_whole_frames _ hfit, ?_⟩
  rw [session_whole_frames _ hfit, List.map_map]
  refine List.map_congr_left fun a ha => ?_
  have hdec : decodable a = true := by
    rcases hshape a ha with rfl | rfl | rfl | rfl | ⟨v, rfl, hlen⟩
    any_goals decide
    exact decide_eq_true (by omega)
  simpa using decodeResponse_encode a hdec []

/-- The specification's first scenario, `SET k v`, `GET k`, `DEL k`, `GET k`: the client shows
`OK`, `v`, `1` and `NULL`. -/
theorem session_shows_ok_v_one_null :
    let reqs := [Request.set (ascii "k") (ascii "v"), .get (ascii "k"), .del (ascii "k"),
      .get (ascii "k")]
    (∀ k v, Request.set k v ∈ reqs → v.length ≤ 65525) ∧
      (validCuts [] ((KvMap.serve [] reqs).1.map encode)
          (((KvMap.serve [] reqs).1.map encode).map List.length) = true ∧
        session ⟨true⟩ [] ((KvMap.serve [] reqs).1.map encode)
            (((KvMap.serve [] reqs).1.map encode).map List.length) =
          (KvMap.serve [] reqs).1.map (fun a => .ok (replyText a))) ∧
      (KvMap.serve [] reqs).1.map replyText = [ascii "OK", ascii "v", ascii "1", ascii "NULL"] := by
  intro reqs
  have hv : ∀ k v, Request.set k v ∈ reqs → v.length ≤ 65525 := by
    intro k v h
    simp only [reqs, List.mem_cons, Request.set.injEq, reduceCtorEq, List.mem_nil_iff, or_false] at h
    rw [h.2]; decide
  exact ⟨hv, session_shows_kv_answers reqs hv, by decide⟩

end Client

end BlinkDb
