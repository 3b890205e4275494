import BlinkDb.Model.Interactive
import BlinkDb.Analysis.ClientReplies

/-!
# The interactive client: what a typed line means, and the end of the input

`parse_command_line` splits a line into its words, the maximal runs of bytes that are not
whitespace, for every line (`parseCommandLine_eq_words`): the first word in upper case is the
command, and the others, each without its surrounding double quotes, are the arguments. `words`
states the splitting without any stream, as `List.splitOnP` at the whitespace bytes with the
empty pieces dropped.

`run_interactive` never checks what `std::getline` returned. Once `std::cin` is exhausted,
`getline` fails at its sentry and leaves `line` as the last round left it, so every further round
handles that line again and the loop never reaches `break`:

* when the input ended with a newline, the last `getline` erased `line`, and the loop spins with
  nothing to do (`eof_blank_line_spins`);
* when its last line had no newline, that line is still in `line`, and every round sends its
  command to the server again and prints the reply (`eof_resends_last_command`).
-/

set_option autoImplicit false

namespace BlinkDb

namespace Client

/-! ## Words -/

/-- The words of a line: its maximal runs of bytes that are not whitespace, in order. -/
def words (line : Bytes) : List Bytes := (line.splitOnP isSpace).filter fun w => !w.isEmpty

/-- An empty line has no words. -/
@[simp] theorem words_nil : words [] = [] := rfl

/-- INTERNAL: a white-space byte in front adds no word. -/
theorem words_cons_space {b : UInt8} (hb : isSpace b = true) (l : Bytes) :
    words (b :: l) = words l := by
  simp [words, List.splitOnP_cons, hb]

/-- INTERNAL: leading white space adds no word. -/
theorem words_dropWhile (l : Bytes) : words (l.dropWhile isSpace) = words l := by
  induction l with
  | nil => rfl
  | cons b l ih =>
    cases hb : isSpace b
    · simp [List.dropWhile_cons, hb]
    · simp [List.dropWhile_cons, hb, ih, words_cons_space hb]

/-- A word followed by the end of the line or by whitespace is the first word. -/
theorem words_word_append {w rest : Bytes} (hw : ∀ b ∈ w, isSpace b = false) (hne : w ≠ [])
    (hrest : ∀ b ∈ rest.head?, isSpace b = true) : words (w ++ rest) = w :: words rest := by
  have hw' : ∀ b ∈ w, ¬ isSpace b = true := fun b hb => by simp [hw b hb]
  have hkeep : (!w.isEmpty) = true := by simpa using hne
  cases rest with
  | nil => simp [words, List.splitOnP_eq_single isSpace w hw', hkeep]
  | cons sep as =>
    have hsep : isSpace sep = true := hrest sep rfl
    rw [words_cons_space hsep, words, List.splitOnP_first isSpace w hw' sep hsep, List.filter_cons,
      if_pos hkeep]
    rfl

/-- INTERNAL: the first byte `dropWhile` leaves fails its test. -/
theorem not_of_dropWhile_eq_cons {p : UInt8 → Bool} {l t : Bytes} {b : UInt8}
    (h : l.dropWhile p = b :: t) : p b = false := by
  simpa [h] using List.head?_dropWhile_not p l

/-- INTERNAL: one `iss >> s` reads the first word, and leaves the others. -/
theorem words_eq_extract (input : Bytes) :
    words input = match extract input with
      | none => []
      | some (w, rest) => w :: words rest := by
  rw [← words_dropWhile, extract]
  generalize hd : input.dropWhile isSpace = d
  cases d with
  | nil => rfl
  | cons b t =>
    have hb := not_of_dropWhile_eq_cons hd
    dsimp only
    conv_lhs => rw [← List.takeWhile_append_dropWhile (fun b => !isSpace b) (b :: t)]
    refine words_word_append (fun x hx => by simpa using List.mem_takeWhile_imp hx)
      (by simp [List.takeWhile_cons, hb]) fun x hx => ?_
    cases hr : (b :: t).dropWhile fun b => !isSpace b with
    | nil => simp [hr] at hx
    | cons y ys =>
      simp only [hr, List.head?_cons, Option.mem_def, Option.some.injEq] at hx
      simpa [hx] using not_of_dropWhile_eq_cons hr

/-- INTERNAL: `iss >> s` consumes at least one byte when it reads a word. -/
theorem length_extract {input w rest : Bytes} (h : extract input = some (w, rest)) :
    rest.length < input.length := by
  unfold extract at h
  generalize hd : input.dropWhile isSpace = d at h
  cases d with
  | nil => cases h
  | cons b t =>
    simp only [Option.some.injEq, Prod.mk.injEq] at h
    have hsuf := (List.dropWhile_suffix isSpace (l := input)).length_le
    have hrest := (List.dropWhile_suffix (fun b => !isSpace b) (l := t)).length_le
    rw [← h.2, List.dropWhile_cons, not_of_dropWhile_eq_cons hd, Bool.not_false, if_pos rfl]
    rw [hd, List.length_cons] at hsuf
    omega

/-- The `while (iss >> arg)` loop with at least as much fuel as bytes reads every word. -/
theorem parseArgs_eq : ∀ {fuel : Nat} {input : Bytes}, input.length ≤ fuel →
    parseArgs fuel input = (words input).map stripQuotes
  | 0, input, h => by rw [List.eq_nil_of_length_eq_zero (Nat.le_zero.1 h)]; rfl
  | fuel + 1, input, h => by
    rw [parseArgs, words_eq_extract]
    match he : extract input with
    | none => rfl
    | some (arg, rest) =>
      have := length_extract he
      simp only [List.map_cons, parseArgs_eq (show rest.length ≤ fuel by omega)]

/-- `parse_command_line` splits every line into its words: it fails exactly when the line has
none, and otherwise returns the first in upper case as the command, and the others, each
without its surrounding double quotes, as the arguments. -/
theorem parseCommandLine_eq_words (line : Bytes) :
    parseCommandLine line = match words line with
      | [] => none
      | w :: ws => some (uppercase w, ws.map stripQuotes) := by
  rw [parseCommandLine, words_eq_extract]
  match extract line with
  | none => rfl
  | some (command, rest) => simp only [parseArgs_eq (le_refl rest.length)]

/-- A command, its arguments plain words. -/
example : parseCommandLine (ascii " set\tkey \"value\" ") =
    some (ascii "SET", [ascii "key", ascii "value"]) := by decide

/-! ## The end of the input -/

/-- Trimming twice is trimming once. -/
theorem trim_trim (line : Bytes) : trim (trim line) = trim line := by
  unfold trim
  generalize hx : line.dropWhile isBlank = x
  suffices x.rdropWhile isBlank = (x.rdropWhile isBlank).dropWhile isBlank by
    rw [← this, List.rdropWhile_idempotent]
  obtain ⟨t, ht⟩ := List.rdropWhile_prefix (p := isBlank) (l := x)
  cases hr : x.rdropWhile isBlank with
  | nil => rfl
  | cons c cs =>
    have hc : isBlank c = false := not_of_dropWhile_eq_cons (l := line) (t := cs ++ t) (by
      rw [hx, ← ht, hr, List.cons_append])
    simp [List.dropWhile_cons, hc]

/-- INTERNAL: `std::getline` on an exhausted `std::cin` leaves the line it was given. -/
theorem getline_of_not_good {input : Input} (h : input.good = false) (line : Bytes) :
    getline input line = (input, line) := by
  simp [getline, h]

namespace Interactive

variable {s : Interactive}

/-- Once `std::cin` is exhausted, a round handles the last line again, trimmed. -/
theorem round_of_not_good (h : s.input.good = false) (sent : Bool) (r : RecvResult) :
    s.round sent r = { s with line := trim s.line }.round sent r := by
  simp only [round, getline_of_not_good h, trim_trim]

/-- INTERNAL: once `std::cin` is exhausted, a round trims the line it holds and goes on with it. -/
theorem loop_of_not_good (h : s.input.good = false) (env : List (Bool × RecvResult)) :
    s.loop env = { s with line := trim s.line }.loop env := by
  cases env with
  | nil => rfl
  | cons e env => simp only [loop, round_of_not_good h]

/-- A state that every round leaves as it found it: the loop repeats that round's effects and
never ends. -/
theorem loop_of_fixed {env : List (Bool × RecvResult)}
    (hfix : ∀ e ∈ env, ∃ es, s.round e.1 e.2 = (es, .next, s)) :
    s.loop env = ((env.map fun e => (s.round e.1 e.2).1).flatten, .next) := by
  induction env with
  | nil => rfl
  | cons e env ih =>
    obtain ⟨es, hes⟩ := hfix e (List.mem_cons_self _ _)
    simp only [loop, hes, ih fun e he => hfix e (List.mem_cons_of_mem _ he), List.map_cons,
      List.flatten_cons]

/-- Once `std::cin` is exhausted after a newline, `line` stays empty: every round skips it, and
the loop never ends. -/
theorem eof_blank_line_spins (h : s.input.good = false) (hline : trim s.line = [])
    (env : List (Bool × RecvResult)) : s.loop env = ([], .next) := by
  have hround : ∀ sent r, { s with line := [] }.round sent r = ([], .next, { s with line := [] }) :=
    fun sent r => by simp [round, getline_of_not_good h, trim]
  rw [loop_of_not_good h, hline, loop_of_fixed fun e _ => ⟨[], hround e.1 e.2⟩]
  simp [hround]

/-- The input `GET k` and a newline: once both are read, the stream is exhausted and `line`
empty, and the loop spins. -/
theorem eof_spins_after_newline :
    let s : Interactive := ⟨⟨true⟩, ⟨[], false⟩, []⟩
    s.input.good = false ∧ trim s.line = [] ∧
      s.loop [(true, .bytes (ascii "+OK\r\n")), (false, .error .other)] = ([], .next) :=
  ⟨rfl, rfl, eof_blank_line_spins (s := ⟨⟨true⟩, ⟨[], false⟩, []⟩) rfl rfl _⟩

/-- INTERNAL: a round at the end of the input whose line is a command, on a connected client
whose `send_data` succeeds and whose `recv` returns a reply that decodes. -/
theorem round_command (h : s.input.good = false) (htrim : trim s.line = s.line)
    {command text b : Bytes} {args : List Bytes} (hc : s.client = ⟨true⟩) (hexit : s.line ∉ exitWords)
    (hparse : parseCommandLine s.line = some (command, args)) (hb : b ≠ [])
    (hdec : decodeResponse b = .ok text) :
    s.round true (.bytes b) = ([.send (encodeCommand command args), .print text], .next, s) := by
  have hne : s.line.isEmpty = false := by
    cases hl : s.line with
    | nil => simp [hl, parseCommandLine, extract] at hparse
    | cons _ _ => rfl
  obtain ⟨client, input, line⟩ := s
  subst hc
  simp only [round, getline_of_not_good h, htrim, hne, hexit, hparse, execute_bytes hb, hdec] at *
  simp

/-- Once `std::cin` is exhausted with its last line a command and no newline after it, every
round of the loop sends that command to the server again and prints the reply, and the loop never
ends: for every connected client, and every sequence of replies that decode. -/
theorem eof_resends_last_command {command : Bytes} {args : List Bytes} (h : s.input.good = false)
    (hc : s.client.connected = true) (hexit : trim s.line ∉ exitWords)
    (hparse : parseCommandLine (trim s.line) = some (command, args)) (replies : List (Bytes × Bytes))
    (hreplies : ∀ p ∈ replies, p.1 ≠ [] ∧ decodeResponse p.1 = .ok p.2) :
    s.loop (replies.map fun p => (true, .bytes p.1)) =
      ((replies.map fun p => [Effect.send (encodeCommand command args), .print p.2]).flatten, .next) := by
  have hclient : { s with line := trim s.line }.client = ⟨true⟩ := by
    cases hs : s.client; simp_all
  have hround := fun p (hp : p ∈ replies) => round_command (s := { s with line := trim s.line }) h
    (trim_trim s.line) hclient hexit hparse (hreplies p hp).1 (hreplies p hp).2
  rw [loop_of_not_good h, loop_of_fixed fun e he => ?_]
  · simp only [List.map_map]
    congr 2
    refine List.map_congr_left fun p hp => ?_
    simp only [Function.comp_apply, hround p hp]
  · obtain ⟨p, hp, rfl⟩ := List.mem_map.1 he
    exact ⟨_, hround p hp⟩

/-- The input `SET k v` with no newline after it: once it is read, each round sends it again. -/
theorem eof_resends_set :
    let s : Interactive := ⟨⟨true⟩, ⟨[], false⟩, ascii "SET k v"⟩
    let replies := [(ascii "+OK\r\n", ascii "OK"), (ascii "+OK\r\n", ascii "OK")]
    s.input.good = false ∧ s.client.connected = true ∧ trim s.line ∉ exitWords ∧
      parseCommandLine (trim s.line) = some (ascii "SET", [ascii "k", ascii "v"]) ∧
      (∀ p ∈ replies, p.1 ≠ [] ∧ decodeResponse p.1 = .ok p.2) ∧
      s.loop (replies.map fun p => (true, .bytes p.1)) =
        ((replies.map fun p => [Effect.send (encodeCommand (ascii "SET") [ascii "k", ascii "v"]),
          .print p.2]).flatten, .next) :=
  have hreplies : ∀ p ∈ [(ascii "+OK\r\n", ascii "OK"), (ascii "+OK\r\n", ascii "OK")],
      p.1 ≠ [] ∧ decodeResponse p.1 = .ok p.2 := fun p hp => by
    simp only [List.mem_cons, List.not_mem_nil, or_false, or_self] at hp
    subst hp
    exact ⟨by decide, rfl⟩
  ⟨rfl, rfl, by decide, by decide, hreplies,
    eof_resends_last_command rfl rfl (by decide) (by decide) _ hreplies⟩

end Interactive

end Client

end BlinkDb
