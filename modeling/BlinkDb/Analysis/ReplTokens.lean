import BlinkDb.Model.Repl

/-!
# `REPL::tokenize` on the command lines of part A

The loop of `tokenize` never runs out of rounds: a round on a good stream consumes a byte, and a
round on a stream that is no longer good ends the loop (`loop_add`, with the measure `rounds`),
so the `input.length + 2` rounds `tokenize` gives it are the loop of the source.

A line of bare words, each without whitespace or quotes, separated by single spaces, is split
into its words (`tokenize_bare_words`). Each round reads one word with `ss >> token`, and the
last one reaches the end of the line, which the next `ss >> std::ws` sees as a stream that is no
longer good.

Quotes are another matter. The quote branch flips `in_quotes` before it reads the quoted text,
and only the branch for an unquoted token clears it, so after `"v"` the flag is still set. The
next bare token is then read with `std::getline` up to the next `'"'`, spaces included. On
`SET k "v" EX n`, the form the source documents, `tokenize` returns `SET`, `k`, `v` and the one
token `EX n`, and `process_command` stores `v` with the ttl `seconds::max()`
(`set_quoted_value_drops_ttl`).
-/

set_option autoImplicit false

namespace BlinkDb

namespace Repl

namespace Stream

/-! ## The stream's operations -/

/-- A run of bytes with no whitespace. -/
def Word (w : Bytes) : Prop := w ≠ [] ∧ ∀ b ∈ w, isSpace b = false

/-- INTERNAL: `std::ws` stops at once before a word. -/
theorem ws_word {w : Bytes} (hw : Word w) (r : Bytes) :
    ws ⟨w ++ r, false, false⟩ = ⟨w ++ r, false, false⟩ := by
  obtain ⟨x, xs, rfl⟩ := List.exists_cons_of_ne_nil hw.1
  simp [ws, good, List.dropWhile_cons, hw.2 x (List.mem_cons_self _ _)]

/-- INTERNAL: `std::ws` stops at once before a byte that is not white space. -/
theorem ws_nonspace {b : UInt8} (hb : isSpace b = false) (r : Bytes) :
    ws ⟨b :: r, false, false⟩ = ⟨b :: r, false, false⟩ := by
  simp [ws, good, List.dropWhile_cons, hb]

/-- INTERNAL: `std::ws` skips a white-space byte. -/
theorem ws_space {b : UInt8} {r : Bytes} (hb : isSpace b = true) :
    ws ⟨b :: r, false, false⟩ = ws ⟨r, false, false⟩ := by
  simp [ws, good, List.dropWhile_cons, hb]

/-- INTERNAL: `std::ws` skips a run of white space. -/
theorem ws_spaces {pre : Bytes} (hpre : ∀ b ∈ pre, isSpace b = true) (r : Bytes) :
    ws ⟨pre ++ r, false, false⟩ = ws ⟨r, false, false⟩ := by
  induction pre with
  | nil => rfl
  | cons b pre ih =>
    rw [List.cons_append, ws_space (hpre b (List.mem_cons_self _ _))]
    exact ih fun c hc => hpre c (List.mem_cons_of_mem _ hc)

/-- INTERNAL: `std::ws` on a stream that is not good sets its fail bit. -/
theorem ws_not_good {s : Stream} (h : s.good = false) : (ws s).fail = true := by
  simp [ws, h]

/-- INTERNAL: `std::ws` on a good stream skips the white space and sets `eof` when nothing is left. -/
theorem ws_of_good {s : Stream} (h : s.good = true) :
    s.ws = ⟨s.rest.dropWhile isSpace, (s.rest.dropWhile isSpace).isEmpty, false⟩ := by
  obtain ⟨rest, eof, fail⟩ := s
  simp only [good, Bool.and_eq_true, Bool.not_eq_true'] at h
  obtain ⟨rfl, rfl⟩ := h
  rfl

/-- INTERNAL: `get()` on a good stream takes its first byte. -/
theorem get_cons (b : UInt8) (r : Bytes) : get ⟨b :: r, false, false⟩ = (some b, ⟨r, false, false⟩) :=
  rfl

/-- INTERNAL: `std::getline` up to a delimiter that follows takes the bytes before it and consumes
it. -/
theorem getline_delim {l : Bytes} {d : UInt8} (hd : d ∉ l) (r token : Bytes) :
    getline ⟨l ++ d :: r, false, false⟩ token d = (⟨r, false, false⟩, l) := by
  have hl : ∀ x ∈ l, (x != d) = true := fun x hx => by
    simpa using fun h : x = d => hd (h ▸ hx)
  simp [getline, good, List.takeWhile_append_of_pos hl, List.dropWhile_append_of_pos hl]

/-- INTERNAL: `std::getline` with no delimiter left takes the rest and sets `eof`. -/
theorem getline_end {l : Bytes} {d : UInt8} (hd : d ∉ l) (hne : l ≠ []) (token : Bytes) :
    getline ⟨l, false, false⟩ token d = (⟨[], true, false⟩, l) := by
  have hl : ∀ x ∈ l, (x != d) = true := fun x hx => by
    simpa using fun h : x = d => hd (h ▸ hx)
  simp [getline, good, List.takeWhile_eq_self_iff.2 hl, List.dropWhile_eq_nil_iff.2 hl, hne]

/-- INTERNAL: `operator>>` into a string takes a word up to the white space after it. -/
theorem extract_word {w : Bytes} (hw : Word w) {b : UInt8} (hb : isSpace b = true) (r token : Bytes) :
    extract ⟨w ++ b :: r, false, false⟩ token = (⟨b :: r, false, false⟩, w) := by
  obtain ⟨x, xs, rfl⟩ := List.exists_cons_of_ne_nil hw.1
  have hx : isSpace x = false := hw.2 x (List.mem_cons_self _ _)
  have hall : ∀ y ∈ xs, (!isSpace y) = true := fun y hy => by
    simp [hw.2 y (List.mem_cons_of_mem _ hy)]
  simp [extract, good, List.dropWhile_cons, hx, List.takeWhile_append_of_pos hall,
    List.dropWhile_append_of_pos hall, hb]

/-- INTERNAL: `operator>>` into a string takes a last word and sets `eof`. -/
theorem extract_end {w : Bytes} (hw : Word w) (token : Bytes) :
    extract ⟨w, false, false⟩ token = (⟨[], true, false⟩, w) := by
  obtain ⟨x, xs, rfl⟩ := List.exists_cons_of_ne_nil hw.1
  have hx : isSpace x = false := hw.2 x (List.mem_cons_self _ _)
  have hall : ∀ y ∈ x :: xs, (!isSpace y) = true := fun y hy => by simp [hw.2 y hy]
  simp [extract, good, List.dropWhile_cons, hx, List.takeWhile_eq_self_iff.2 hall,
    List.dropWhile_eq_nil_iff.2 hall]

/-! ## No operation reads more than it consumes -/

/-- INTERNAL: the byte after what `dropWhile p` skips fails `p`. -/
theorem head_of_dropWhile_eq_cons {p : UInt8 → Bool} {l r : Bytes} {c : UInt8}
    (h : l.dropWhile p = c :: r) : p c = false := by
  have := List.head_dropWhile_not p l (by rw [h]; exact List.cons_ne_nil _ _)
  simpa [h] using this

/-- INTERNAL: `std::getline` on a good stream with bytes left consumes at least one. -/
theorem getline_rest_lt {s : Stream} (hg : s.good = true) (hne : s.rest ≠ []) (token : Bytes)
    (d : UInt8) : (s.getline token d).1.rest.length < s.rest.length := by
  have hsuf := (List.dropWhile_suffix (fun b => b != d) (l := s.rest)).length_le
  rcases hd : s.rest.dropWhile (· != d) with _ | ⟨c, r⟩ <;>
    simp only [getline, hg, if_true, List.span_eq_take_drop, hd] at hsuf ⊢
  · exact List.length_pos.2 hne
  · simp only [List.length_cons] at hsuf; omega

/-- INTERNAL: `std::getline` never adds bytes to the stream. -/
theorem getline_rest_le (s : Stream) (token : Bytes) (d : UInt8) :
    (s.getline token d).1.rest.length ≤ s.rest.length := by
  by_cases hg : s.good = true
  · by_cases hne : s.rest = []
    · simp [getline, hg, hne]
    · exact (getline_rest_lt hg hne token d).le
  · simp [getline, hg]

/-- INTERNAL: `operator>>` on a good stream with bytes left consumes at least one. -/
theorem extract_rest_lt {s : Stream} (hg : s.good = true) (hne : s.rest ≠ []) (token : Bytes) :
    (s.extract token).1.rest.length < s.rest.length := by
  have hsuf := (List.dropWhile_suffix isSpace (l := s.rest)).length_le
  rcases hd : s.rest.dropWhile isSpace with _ | ⟨c, r⟩ <;>
    simp only [extract, hg, if_true, hd] at hsuf ⊢
  · exact List.length_pos.2 hne
  · have hc := head_of_dropWhile_eq_cons hd
    have hr := (List.dropWhile_suffix (fun b => !isSpace b) (l := r)).length_le
    simp only [List.dropWhile_cons, hc, Bool.not_false, if_true, List.length_cons] at hsuf hr ⊢
    omega

end Stream

open Stream

/-- A bare word of a command line: no whitespace and no quote. -/
def Bare (w : Bytes) : Prop := Word w ∧ (34 : UInt8) ∉ w ∧ (39 : UInt8) ∉ w

namespace Tokenizer

/-! ## One round -/

/-- INTERNAL: a round outside quotes on a bare word followed by white space adds the word. -/
theorem body_bare {w : Bytes} (hw : Bare w) {b : UInt8} (hb : isSpace b = true) (r : Bytes)
    (tokens : List Bytes) (token : Bytes) (qc : UInt8) :
    body ⟨⟨w ++ b :: r, false, false⟩, tokens, token, false, qc⟩ =
      ⟨⟨b :: r, false, false⟩, tokens ++ [w], w, false, qc⟩ := by
  obtain ⟨x, xs, rfl⟩ := List.exists_cons_of_ne_nil hw.1.1
  have h34 : x ≠ 34 := fun h => hw.2.1 (h ▸ List.mem_cons_self _ _)
  have h39 : x ≠ 39 := fun h => hw.2.2 (h ▸ List.mem_cons_self _ _)
  have hx := extract_word hw.1 hb r token
  simp only [List.cons_append] at hx
  simp [body, peek, good, h34, h39, hx, push]

/-- INTERNAL: a round outside quotes on a last bare word adds it and reaches the end. -/
theorem body_bare_end {w : Bytes} (hw : Bare w) (tokens : List Bytes) (token : Bytes) (qc : UInt8) :
    body ⟨⟨w, false, false⟩, tokens, token, false, qc⟩ =
      ⟨⟨[], true, false⟩, tokens ++ [w], w, false, qc⟩ := by
  obtain ⟨x, xs, rfl⟩ := List.exists_cons_of_ne_nil hw.1.1
  have h34 : x ≠ 34 := fun h => hw.2.1 (h ▸ List.mem_cons_self _ _)
  have h39 : x ≠ 39 := fun h => hw.2.2 (h ▸ List.mem_cons_self _ _)
  simp [body, peek, good, h34, h39, extract_end hw.1, push]

/-- INTERNAL: a round on a double-quoted text adds the text between the quotes and flips the quote
state. -/
theorem body_quoted {v : Bytes} (hv : v ≠ []) (h34 : (34 : UInt8) ∉ v) (r : Bytes)
    (tokens : List Bytes) (token : Bytes) (inQuotes : Bool) (qc : UInt8) :
    body ⟨⟨34 :: (v ++ 34 :: r), false, false⟩, tokens, token, inQuotes, qc⟩ =
      ⟨⟨r, false, false⟩, tokens ++ [v], v, !inQuotes, 34⟩ := by
  simp [body, peek, good, get_cons, getline_delim h34, push, hv]

/-- INTERNAL: a round inside quotes on a last text without a quote adds the text and reaches the
end. -/
theorem body_in_quotes_end {l : Bytes} (hl : l ≠ []) (h34 : (34 : UInt8) ∉ l) (h39 : l.head? ≠ some 39)
    (tokens : List Bytes) (token : Bytes) :
    body ⟨⟨l, false, false⟩, tokens, token, true, 34⟩ = ⟨⟨[], true, false⟩, tokens ++ [l], l, false, 34⟩ := by
  obtain ⟨x, xs, rfl⟩ := List.exists_cons_of_ne_nil hl
  have hx : x ≠ 34 := fun h => h34 (h ▸ List.mem_cons_self _ _)
  have hx' : x ≠ 39 := fun h => h39 (by simp [h])
  simp [body, peek, good, hx, hx', getline_end h34 hl, push]

/-- INTERNAL: a round on a stream that is not good leaves it not good. -/
theorem body_not_good {t : Tokenizer} (h : t.ss.good = false) : (body t).ss.good = false := by
  obtain ⟨⟨rest, eof, fail⟩, tokens, token, inQuotes, qc⟩ := t
  cases eof <;> cases fail <;> cases inQuotes <;>
    simp_all [body, peek, Stream.get, getline, extract, good]

/-- INTERNAL: a round on a good stream with bytes left consumes at least one. -/
theorem body_rest_lt {t : Tokenizer} (hg : t.ss.good = true) (hne : t.ss.rest ≠ []) :
    (body t).ss.rest.length < t.ss.rest.length := by
  obtain ⟨⟨rest, eof, fail⟩, tokens, token, inQuotes, qc⟩ := t
  obtain ⟨b, r, rfl⟩ := List.exists_cons_of_ne_nil hne
  simp only [good, Bool.and_eq_true, Bool.not_eq_true'] at hg
  obtain ⟨rfl, rfl⟩ := hg
  have hquote : ∀ token, (getline ⟨r, false, false⟩ token b).1.rest.length < (b :: r).length :=
    fun token => Nat.lt_succ_of_le (getline_rest_le _ token b)
  by_cases h34 : b = 34
  · subst h34; exact hquote token
  by_cases h39 : b = 39
  · subst h39; exact hquote token
  simp only [body, peek, good, Bool.not_false, Bool.and_self, if_true, Option.some.injEq, h34, h39,
    if_false, decide_False]
  cases inQuotes
  · exact extract_rest_lt (s := ⟨b :: r, false, false⟩) rfl (List.cons_ne_nil _ _) token
  · exact getline_rest_lt (s := ⟨b :: r, false, false⟩) rfl (List.cons_ne_nil _ _) token qc

/-! ## The loop's exit -/

/-- INTERNAL: one round of the tokenizing loop: stop when `std::ws` fails, else run the body. -/
theorem loop_succ (fuel : Nat) (ss : Stream) (tokens : List Bytes) (token : Bytes) (inQuotes : Bool)
    (qc : UInt8) :
    loop (fuel + 1) ⟨ss, tokens, token, inQuotes, qc⟩ =
      if ss.ws.fail then tokens else loop fuel (body ⟨ss.ws, tokens, token, inQuotes, qc⟩) :=
  rfl

/-- INTERNAL: the loop on a stream that is not good returns the tokens it has. -/
theorem loop_not_good (fuel : Nat) {ss : Stream} (h : ss.good = false) (tokens : List Bytes)
    (token : Bytes) (inQuotes : Bool) (qc : UInt8) :
    loop fuel ⟨ss, tokens, token, inQuotes, qc⟩ = tokens := by
  cases fuel with
  | zero => rfl
  | succ fuel => exact if_pos (ws_not_good h)

/-- The rounds the loop still needs: two more than the bytes left on a good stream, one on a
stream that is no longer good. -/
def rounds (t : Tokenizer) : Nat := if t.ss.good then t.ss.rest.length + 2 else 1

/-- More rounds than `rounds` change nothing: the loop has left by then. -/
theorem loop_add : ∀ (fuel k : Nat) (t : Tokenizer), rounds t ≤ fuel → loop (fuel + k) t = loop fuel t
  | 0, k, t, h => absurd h (by unfold rounds; split <;> omega)
  | fuel + 1, k, t, h => by
    rw [show fuel + 1 + k = fuel + k + 1 by omega]
    simp only [loop]
    split
    · rfl
    next hf =>
    apply loop_add fuel k
    have hg : t.ss.good = true := by
      by_contra hg
      exact hf (ws_not_good (by simpa using hg))
    have hm : t.ss.rest.length + 1 ≤ fuel := by simp only [rounds, hg, if_true] at h; omega
    have hle := (List.dropWhile_suffix isSpace (l := t.ss.rest)).length_le
    rw [ws_of_good hg]
    rcases hd : t.ss.rest.dropWhile isSpace with _ | ⟨c, r⟩
    · have hb := body_not_good (t := ⟨⟨[], true, false⟩, t.tokens, t.token, t.inQuotes, t.quoteChar⟩) rfl
      simp only [List.isEmpty_nil, rounds, hb, Bool.false_eq_true, if_false]
      omega
    · have hlt := body_rest_lt (t := ⟨⟨c :: r, false, false⟩, t.tokens, t.token, t.inQuotes, t.quoteChar⟩)
        rfl (List.cons_ne_nil _ _)
      rw [hd] at hle
      simp only [List.isEmpty_cons, rounds]
      split <;> simp only [List.length_cons] at hlt hle <;> omega

end Tokenizer

open Tokenizer

/-- `tokenize` with any number of rounds beyond the ones it gives: the same tokens. -/
theorem tokenize_rounds (input : Bytes) (k : Nat) :
    loop (input.length + 2 + k) ⟨⟨input, false, false⟩, [], [], false, 0⟩ = tokenize input :=
  loop_add _ k _ (by simp [rounds, good])

/-! ## Lines of bare words -/

/-- The words `w₁ … wₙ` separated by single spaces. -/
def unwords : List Bytes → Bytes
  | [] => []
  | [w] => w
  | w :: x :: ws => w ++ 32 :: unwords (x :: ws)

/-- INTERNAL: a line of nonempty words has a byte for each word after the first. -/
theorem length_unwords {w : Bytes} (hw : w ≠ []) :
    ∀ {ws : List Bytes}, (∀ x ∈ ws, x ≠ []) → ws.length < (unwords (w :: ws)).length
  | [], _ => List.length_pos.2 hw
  | x :: ws, hws => by
    have := length_unwords (hws x (List.mem_cons_self _ _)) fun y hy => hws y (List.mem_cons_of_mem _ hy)
    simp only [unwords, List.length_append, List.length_cons] at this ⊢
    omega

/-- INTERNAL: from a line of bare words after some whitespace, the loop adds the words to the
tokens. -/
theorem loop_unwords {w : Bytes} (hw : Bare w) :
    ∀ {ws : List Bytes}, (∀ x ∈ ws, Bare x) → ∀ {pre : Bytes}, (∀ b ∈ pre, isSpace b = true) →
      ∀ {fuel : Nat}, ws.length + 2 ≤ fuel → ∀ (tokens : List Bytes) (token : Bytes) (qc : UInt8),
      loop fuel ⟨⟨pre ++ unwords (w :: ws), false, false⟩, tokens, token, false, qc⟩ = tokens ++ w :: ws
  | [], _, pre, hpre, fuel + 1, _, tokens, token, qc => by
    have hws : ws ⟨pre ++ w, false, false⟩ = ⟨w, false, false⟩ := by
      rw [ws_spaces hpre, ← List.append_nil w, ws_word hw.1]
    rw [unwords, loop_succ, hws, if_neg Bool.false_ne_true, body_bare_end hw, loop_not_good]
    rfl
  | x :: ws, hx, pre, hpre, fuel + 1, hfuel, tokens, token, qc => by
    have hws : Stream.ws ⟨pre ++ unwords (w :: x :: ws), false, false⟩ =
        ⟨w ++ 32 :: unwords (x :: ws), false, false⟩ := by
      rw [ws_spaces hpre, unwords, ws_word hw.1]
    rw [loop_succ, hws, if_neg Bool.false_ne_true, body_bare hw (by decide),
      ← List.singleton_append, loop_unwords (hx x (List.mem_cons_self _ _))
        (fun y hy => hx y (List.mem_cons_of_mem _ hy)) (by decide) (by simp at hfuel ⊢; omega)]
    simp

/-- A line of bare words separated by single spaces is split into exactly its words. -/
theorem tokenize_bare_words {words : List Bytes} (h : ∀ w ∈ words, Bare w) :
    tokenize (unwords words) = words := by
  match words, h with
  | [], _ => rfl
  | w :: ws, h =>
    have hw := h w (List.mem_cons_self _ _)
    have hws : ∀ x ∈ ws, Bare x := fun x hx => h x (List.mem_cons_of_mem _ hx)
    have hlen := length_unwords hw.1.1 fun x hx => (hws x hx).1.1
    simpa using loop_unwords hw hws (List.forall_mem_nil _) (by omega) [] [] 0

/-- `GET k`: the two words. -/
theorem tokenize_get_k :
    (∀ w ∈ [ascii "GET", [107]], Bare w) ∧ tokenize (unwords [ascii "GET", [107]]) = [ascii "GET", [107]] :=
  have h : ∀ w ∈ [ascii "GET", [107]], Bare w := by
    simp only [List.mem_cons, List.mem_singleton, forall_eq_or_imp, forall_eq, List.not_mem_nil,
      false_imp_iff, implies_true, and_true]
    exact ⟨⟨⟨by decide, by decide⟩, by decide, by decide⟩, ⟨⟨by decide, by decide⟩, by decide, by decide⟩⟩
  ⟨h, tokenize_bare_words h⟩

/-! ## A quoted value followed by `EX` -/

variable {T : Type} (ops : TableOps T) (now : Int)

/-- `SET k "v" EX n`, with `k` and `n` bare words and `v` a nonempty text without `'"'`:
`tokenize` returns `SET`, `k`, `v` and the one token `EX n`, and `process_command` stores `v`
under `k` with the ttl `seconds::max()`, whatever `n` is. -/
theorem set_quoted_value_drops_ttl (eng : StorageEngine T) {k v n : Bytes} (hk : Bare k)
    (hv : v ≠ [] ∧ (34 : UInt8) ∉ v) (hn : Bare n) :
    tokenize (ascii "SET " ++ k ++ ascii " \"" ++ v ++ ascii "\" EX " ++ n) =
        [ascii "SET", k, v, ascii "EX " ++ n] ∧
      processCommand ops now eng (ascii "SET " ++ k ++ ascii " \"" ++ v ++ ascii "\" EX " ++ n) =
        ([], eng.set ops k v secondsMax now) := by
  have hline : ascii "SET " ++ k ++ ascii " \"" ++ v ++ ascii "\" EX " ++ n =
      ascii "SET" ++ 32 :: (k ++ 32 :: 34 :: (v ++ 34 :: 32 :: (ascii "EX" ++ 32 :: n))) := by
    simp only [List.append_assoc]; rfl
  have hSET : Bare (ascii "SET") := ⟨⟨by decide, by decide⟩, by decide, by decide⟩
  have hEX : Word (ascii "EX") := ⟨by decide, by decide⟩
  have hl34 : (34 : UInt8) ∉ ascii "EX" ++ 32 :: n := by
    simp only [List.mem_append, List.mem_cons, not_or]
    exact ⟨by decide, by decide, hn.2.1⟩
  have htok : tokenize (ascii "SET " ++ k ++ ascii " \"" ++ v ++ ascii "\" EX " ++ n) =
      [ascii "SET", k, v, ascii "EX " ++ n] := by
    obtain ⟨m, hm⟩ : ∃ m, (ascii "SET" ++ 32 :: (k ++ 32 :: 34 :: (v ++ 34 :: 32 ::
        (ascii "EX" ++ 32 :: n)))).length + 2 = m + 5 :=
      ⟨_, (Nat.sub_add_cancel (by simp only [List.length_append, List.length_cons]; omega)).symm⟩
    unfold tokenize
    rw [hline, hm, loop_succ, ws_word hSET.1, if_neg Bool.false_ne_true,
      body_bare hSET (by decide : isSpace 32 = true)]
    rw [loop_succ, ws_space (by decide), ws_word hk.1, if_neg Bool.false_ne_true,
      body_bare hk (by decide : isSpace 32 = true)]
    rw [loop_succ, ws_space (by decide), ws_nonspace (by decide), if_neg Bool.false_ne_true,
      body_quoted hv.1 hv.2]
    rw [loop_succ, ws_space (by decide), ws_word hEX, if_neg Bool.false_ne_true, Bool.not_false,
      body_in_quotes_end (by simp) hl34 (by rw [show ascii "EX" = [69, 88] from rfl]; simp),
      loop_not_good]
    · simp only [List.nil_append, List.cons_append, List.singleton_append]
      rfl
    · rfl
  refine ⟨htok, ?_⟩
  delta processCommand
  rw [htok]
  rfl

/-- `SET k "v" EX 10` on a fresh engine: `v` is stored with the ttl `seconds::max()`. -/
theorem set_k_v_ex_ten :
    Bare [107] ∧ (([118] : Bytes) ≠ [] ∧ (34 : UInt8) ∉ [118]) ∧ Bare (ascii "10") ∧
      (tokenize (ascii "SET " ++ [107] ++ ascii " \"" ++ [118] ++ ascii "\" EX " ++ ascii "10") =
          [ascii "SET", [107], [118], ascii "EX " ++ ascii "10"] ∧
        processCommand (HashTable.ops fun _ => 0) 0 (StorageEngine.init 1024)
            (ascii "SET " ++ [107] ++ ascii " \"" ++ [118] ++ ascii "\" EX " ++ ascii "10") =
          ([], (StorageEngine.init 1024).set (HashTable.ops fun _ => 0) [107] [118] secondsMax 0)) :=
  have hk : Bare [107] := ⟨⟨by decide, by decide⟩, by decide, by decide⟩
  have hv : ([118] : Bytes) ≠ [] ∧ (34 : UInt8) ∉ [118] := ⟨by decide, by decide⟩
  have hn : Bare (ascii "10") := ⟨⟨by decide, by decide⟩, by decide, by decide⟩
  ⟨hk, hv, hn, set_quoted_value_drops_ttl _ _ _ hk hv hn⟩

end Repl

end BlinkDb
