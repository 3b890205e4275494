import BlinkDb.Model.Client

/-!
# What `Client::execute` returns when the reply stream is split

`Client::execute` reads the reply with the single `recv` of `receive_data` and decodes what that
call returned. The bytes of one reply frame can arrive over several `recv` calls, and one call
can return the end of one frame with the start of the next; nothing in the client keeps the
rest of a frame or the start of the next one apart.

* When every `recv` returns exactly the frame the server appended for that command, which it can
  for frames of at most `MAX_BUFFER_SIZE - 1` bytes, the `i`-th call returns `decode_response` of
  the `i`-th frame (`session_whole_frames`).
* A `recv` that returns a proper prefix of a frame decodes that prefix, and the frame's rest is
  decoded as the start of the next reply (`session_split_frame_shifts_replies`): the answer of the
  first command is truncated and the second is attributed the rest of the first frame.

`validCuts` states what the transport may do: each `recv` returns between one byte and
`MAX_BUFFER_SIZE - 1` bytes, and no more than are pending.
-/

set_option autoImplicit false

namespace BlinkDb

namespace Client

/-- The transport's side of a session: before the `i`-th `recv` the server has appended
`frames[i]` to the pending bytes, and the `recv` returns between `1` and `65535` of them. -/
def validCuts (pending : Bytes) : List Bytes → List Nat → Bool
  | frame :: frames, cut :: cuts =>
    decide (1 ≤ cut ∧ cut ≤ maxBufferSize - 1 ∧ cut ≤ (pending ++ frame).length) &&
      validCuts ((pending ++ frame).drop cut) frames cuts
  | [], [] => true
  | _, _ => false

/-- INTERNAL: a connected client decodes whatever non-empty bytes its `recv` returned, and
stays connected. -/
theorem execute_bytes {b : Bytes} (hb : b ≠ []) :
    (⟨true⟩ : Client).execute true (.bytes b) = (decodeResponse b, ⟨true⟩) := by
  obtain ⟨x, xs, rfl⟩ := List.exists_cons_of_ne_nil hb
  rfl

/-- A transport that returns each frame whole, in one `recv`, is a valid one when every frame
is non-empty and fits the client's buffer. -/
theorem validCuts_whole_frames :
    ∀ frames : List Bytes, (∀ f ∈ frames, f ≠ [] ∧ f.length ≤ maxBufferSize - 1) →
      validCuts [] frames (frames.map List.length) = true
  | [], _ => rfl
  | frame :: frames, hf => by
    obtain ⟨hne, hle⟩ := hf frame (List.mem_cons_self _ _)
    have hpos : 0 < frame.length := List.length_pos.2 hne
    simp only [validCuts, List.nil_append, List.drop_length, List.map_cons, le_refl, and_true,
      Bool.and_eq_true, decide_eq_true_eq]
    exact ⟨⟨hpos, hle⟩, validCuts_whole_frames frames fun f h => hf f (List.mem_cons_of_mem _ h)⟩

/-- When each `recv` returns exactly the frame the server sent for that command, which it can
when every frame fits the client's buffer, the `i`-th call of `execute` returns
`decode_response` of the `i`-th frame. -/
theorem session_whole_frames :
    ∀ frames : List Bytes, (∀ f ∈ frames, f ≠ [] ∧ f.length ≤ maxBufferSize - 1) →
      session ⟨true⟩ [] frames (frames.map List.length) = frames.map decodeResponse
  | [], _ => rfl
  | frame :: frames, hf => by
    obtain ⟨hne, hle⟩ := hf frame (List.mem_cons_self _ _)
    simp only [session, List.nil_append, Nat.min_eq_left hle, List.take_length, List.drop_length,
      List.map_cons, execute_bytes hne]
    rw [session_whole_frames frames fun f h => hf f (List.mem_cons_of_mem _ h)]

/-- A bulk-string reply `"$1\r\nv\r\n"` whose first `recv` returns only its header, followed by
an integer reply `":1\r\n"`: the first call returns `""` instead of `"v"`, and the second decodes
`"v\r\n:1\r\n"` and reports an unknown type `v` instead of returning `"1"`. -/
theorem session_split_frame_shifts_replies :
    validCuts [] [[36, 49, 13, 10, 118, 13, 10], [58, 49, 13, 10]] [4, 7] = true ∧
      session ⟨true⟩ [] [[36, 49, 13, 10, 118, 13, 10], [58, 49, 13, 10]] [4, 7] =
        [.ok [], .ok (ascii "Error: Unknown RESP type: " ++ [118])] ∧
      [[36, 49, 13, 10, 118, 13, 10], [58, 49, 13, 10]].map decodeResponse =
        [.ok [118], .ok [49]] :=
  ⟨by decide, rfl, rfl⟩

end Client

end BlinkDb
