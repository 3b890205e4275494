import BlinkDb.Model.StorageEngine

/-!
# `REPL` (`REPL.h`)

The command line of part A. `process_command` splits a line into tokens with `tokenize`, upper
cases the first, and calls the storage engine: `SET key value [EX seconds]`, `GET key` and
`DEL key`, printing what `GET` finds and the messages of its error paths.

`tokenize` reads the line through an `std::istringstream`. Its loop is
`while (ss >> std::ws)`: a round peeks at the next byte; at a quote it flips `in_quotes`, takes
the quote with `get()` and reads up to the next copy of it with `std::getline`; otherwise, while
`in_quotes` is set, it reads up to `quote_char` with `std::getline` and clears `in_quotes`, and
else reads a word with `ss >> token`. A token is kept when it is not empty.

The stream is modelled as libstdc++ runs it (`Stream`): the bytes not yet read, and `eofbit` and
`failbit`. Every operation builds a sentry first, and on a stream that is not good (`eofbit` or
`failbit` set) the sentry sets `failbit` and the operation reads nothing: `getline` and `>>` then
leave their string as it was. `std::ws` that reaches the end sets `eofbit` alone, so the loop's
test still succeeds once more after the last byte is read.

The loop runs for at most `fuel` rounds. A round on a good stream consumes at least one byte, and
a round on a stream that is not good sets `failbit`, which ends the loop, so `input.length + 2`
rounds reach its exit.

`mainLoop` is the loop of `main()` (`main.cpp`, kept at the end of `REPL.h`): it reads
`std::cin` line by line, skips an empty line, leaves at `quit` or `exit`, and hands any other
line to `process_command`. `std::getline` at the end of the input fails and leaves the line
empty, so without `quit` or `exit` the loop never ends.

Not modelled: the `"C"` locale's `ctype` is `isSpace`; `engine.set` and the other calls of the
engine read the clock once, as `now`; the output is the list of lines written to `std::cout`,
without the banner and the `User> ` prompts; the eviction thread the engine's constructor
starts is `BlinkDb.Model.Reaper`'s, and runs beside `main()`, not in it.
-/

set_option autoImplicit false

namespace BlinkDb

namespace Repl

/-- An `std::istringstream` as `tokenize` reads it: the bytes not yet read, `eofbit` and
`failbit`. -/
structure Stream where
  rest : Bytes
  eof : Bool
  fail : Bool
  deriving DecidableEq, Repr

namespace Stream

/-- `good()`: neither `eofbit` nor `failbit`. -/
def good (s : Stream) : Bool := !s.eof && !s.fail

/-- `std::ws`: skip whitespace; reaching the end sets `eofbit`. -/
def ws (s : Stream) : Stream :=
  if s.good then
    let rest := s.rest.dropWhile isSpace
    { s with rest := rest, eof := rest.isEmpty }
  else { s with fail := true }

/-- `peek()`: the next byte, `none` for `EOF`, which sets `eofbit` at the end. -/
def peek (s : Stream) : Option UInt8 × Stream :=
  if s.good then
    match s.rest with
    | [] => (none, { s with eof := true })
    | b :: _ => (some b, s)
  else (none, { s with fail := true })

/-- `get()`: the next byte, consumed; at the end `EOF` with `eofbit` and `failbit`. -/
def get (s : Stream) : Option UInt8 × Stream :=
  if s.good then
    match s.rest with
    | [] => (none, { s with eof := true, fail := true })
    | b :: rest => (some b, { s with rest := rest })
  else (none, { s with fail := true })

/-- `std::getline(s, token, delim)`: erase `token`, then read up to `delim`, which is consumed
and not stored, or to the end, which sets `eofbit`; `failbit` when nothing was extracted. -/
def getline (s : Stream) (token : Bytes) (delim : UInt8) : Stream × Bytes :=
  if s.good then
    match s.rest.span (· != delim) with
    | (l, _ :: rest) => ({ s with rest := rest }, l)
    | (l, []) => ({ s with rest := [], eof := true, fail := l.isEmpty }, l)
  else ({ s with fail := true }, token)

/-- `s >> token`: skip whitespace, then read up to the next whitespace or the end, which sets
`eofbit`. With nothing but whitespace left the sentry sets `eofbit` and `failbit` and `token`
keeps its value. -/
def extract (s : Stream) (token : Bytes) : Stream × Bytes :=
  if s.good then
    match s.rest.dropWhile isSpace with
    | [] => ({ s with rest := [], eof := true, fail := true }, token)
    | rest =>
      let after := rest.dropWhile fun b => !isSpace b
      ({ s with rest := after, eof := after.isEmpty }, rest.takeWhile fun b => !isSpace b)
  else ({ s with fail := true }, token)

end Stream

/-- The locals of `tokenize`. -/
structure Tokenizer where
  ss : Stream
  tokens : List Bytes
  token : Bytes
  inQuotes : Bool
  quoteChar : UInt8
  deriving DecidableEq, Repr

namespace Tokenizer

/-- `if (!token.empty()) tokens.push_back(token)`. -/
def push (tokens : List Bytes) (token : Bytes) : List Bytes :=
  if token.isEmpty then tokens else tokens ++ [token]

/-- The body of the loop: `ss.peek() == '"' || ss.peek() == '\x27'` chooses the quote branch
(the second `peek` only when the first is not `'"'`); `quote_char = ss.get()` stores the byte
`get()` returns. -/
def body (t : Tokenizer) : Tokenizer :=
  let p := t.ss.peek
  let q : Bool × Stream :=
    if p.1 = some 34 then (true, p.2) else let p' := p.2.peek; (p'.1 = some 39, p'.2)
  if q.1 then
    let g := q.2.get
    let quoteChar := g.1.getD 255
    let r := g.2.getline t.token quoteChar
    ⟨r.1, push t.tokens r.2, r.2, !t.inQuotes, quoteChar⟩
  else if t.inQuotes then
    let r := q.2.getline t.token t.quoteChar
    { t with ss := r.1, tokens := push t.tokens r.2, token := r.2, inQuotes := false }
  else
    let r := q.2.extract t.token
    { t with ss := r.1, tokens := push t.tokens r.2, token := r.2 }

/-- `while (ss >> std::ws) { … }`, for at most `fuel` rounds; the tokens at the exit. -/
def loop : Nat → Tokenizer → List Bytes
  | 0, t => t.tokens
  | fuel + 1, t =>
    let ss := t.ss.ws
    if ss.fail then t.tokens else loop fuel (body { t with ss := ss })

end Tokenizer

/-- `tokenize(input)`. -/
def tokenize (input : Bytes) : List Bytes :=
  Tokenizer.loop (input.length + 2) ⟨⟨input, false, false⟩, [], [], false, 0⟩

/-- The ttl of `SET`: `seconds::max()`, or `std::stoi(tokens[4])` when there are five tokens
and the fourth is `EX`. `.error` is the line the handler of what `std::stoi` throws prints:
`std::invalid_argument` when no digit is read, `std::out_of_range` (whose `what()` is `"stoi"`)
when the value is not an `int`. -/
def setTtl (tokens : List Bytes) : Except Bytes Int :=
  if 5 ≤ tokens.length ∧ tokens.getD 3 [] = ascii "EX" then
    match strtol (tokens.getD 4 []) with
    | none => .error (ascii "ERROR: Invalid numeric argument")
    | some v => if -2147483648 ≤ v ∧ v < 2147483648 then .ok v else .error (ascii "ERROR: stoi")
  else .ok secondsMax

variable {T : Type} (ops : TableOps T) (now : Int)

/-- `process_command(input)`: the lines printed and the engine after it. -/
def processCommand (eng : StorageEngine T) (input : Bytes) : List Bytes × StorageEngine T :=
  match tokenize input with
  | [] => ([], eng)
  | first :: rest =>
    let tokens := uppercase first :: rest
    if tokens.head? = some (ascii "SET") ∧ 3 ≤ tokens.length then
      match setTtl tokens with
      | .error line => ([line], eng)
      | .ok ttl => ([], eng.set ops (tokens.getD 1 []) (tokens.getD 2 []) ttl now)
    else if tokens.head? = some (ascii "GET") ∧ 2 ≤ tokens.length then
      let r := eng.get ops (tokens.getD 1 []) now now
      ([if r.1.isEmpty then ascii "NULL" else r.1], r.2)
    else if tokens.head? = some (ascii "DEL") ∧ 2 ≤ tokens.length then
      let r := eng.del ops (tokens.getD 1 [])
      (if r.1 then [] else [ascii "Does not exist."], r.2)
    else ([ascii "ERROR: Invalid command format"], eng)

/-- How the loop of `main()` ends on a finite input: at a `quit` or `exit` line, or never, once
`std::cin` is exhausted and every `std::getline` leaves `input` empty. -/
inductive Ending
  | quit
  | spins
  deriving DecidableEq, Repr

/-- The `while (true)` loop of `main()` over the lines of `std::cin`, each with the clock
reading its command makes: an empty line is skipped, `quit` or `exit` leaves the loop, and any
other line goes to `process_command`. The lines the commands print, the engine, and how the
loop ends. -/
def mainLoop (eng : StorageEngine T) : List (Bytes × Int) → List Bytes × StorageEngine T × Ending
  | [] => ([], eng, .spins)
  | (input, clock) :: inputs =>
    if input.isEmpty then mainLoop eng inputs
    else if input = ascii "quit" ∨ input = ascii "exit" then ([], eng, .quit)
    else
      let r := processCommand ops clock eng input
      let rest := mainLoop r.2 inputs
      (r.1 ++ rest.1, rest.2)

end Repl

end BlinkDb
