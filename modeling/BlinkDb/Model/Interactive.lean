import BlinkDb.Model.Client
import Mathlib.Data.List.DropRight

/-!
# `Client::run_interactive` and `Client::parse_command_line` (`client.cpp`)

The client's interactive front end. Each round of the `while (true)` loop of `run_interactive`
reads a line from `std::cin` with `std::getline`, trims blanks (`" \t"`) at both ends, skips an
empty line, leaves the loop at `exit`, `quit`, `EXIT` or `QUIT`, and otherwise splits the line
with `parse_command_line` and prints what `execute` returns.

`parse_command_line` reads the words of the line with `iss >> s`, which skips whitespace
(`std::isspace` of the C locale) and then reads up to the next whitespace. The first word is the
command, in upper case; each further word is an argument, without its surrounding double quotes
when it has them.

`std::getline` on a stream that is no longer good fails before it touches its argument. The
return value is not checked, and `line` is declared before the loop, so once `std::cin` is
exhausted every round sees the last line again.

A round that executes a command consumes one outcome of the environment: what `send_data`
returned, and what the one `recv` of `receive_data` returned. Not modelled: the banner, the prompt
`blink> ` and the message at exit, written to `std::cout`; the `on_response` callback, which
`client_main` does not pass, so each response is printed.
-/

set_option autoImplicit false

namespace BlinkDb

namespace Client

/-! ## `parse_command_line` -/

/-- `iss >> s` on the bytes `input` the stream has not read: skip whitespace, then read up to
the next whitespace or the end. `none` when nothing but whitespace is left: the stream fails and
`s` is not touched. -/
def extract (input : Bytes) : Option (Bytes × Bytes) :=
  match input.dropWhile isSpace with
  | [] => none
  | rest => some (rest.takeWhile (fun b => !isSpace b), rest.dropWhile (fun b => !isSpace b))

/-- `arg = arg.substr(1, arg.size() - 2)` when
`arg.size() >= 2 && arg.front() == '"' && arg.back() == '"'`. -/
def stripQuotes (arg : Bytes) : Bytes :=
  if 2 ≤ arg.length ∧ arg.head? = some 34 ∧ arg.getLast? = some 34 then
    substr arg 1 (arg.length - 2)
  else arg

/-- The loop `while (iss >> arg)` of `parse_command_line`, for at most `fuel` words. -/
def parseArgs : Nat → Bytes → List Bytes
  | 0, _ => []
  | fuel + 1, input =>
    match extract input with
    | none => []
    | some (arg, rest) => stripQuotes arg :: parseArgs fuel rest

/-- `parse_command_line(command_line, command, args)`, with `command` empty on entry as
`run_interactive` passes it. `iss >> command` either fails and leaves it empty (`return false`,
here `none`) or reads a word of at least one byte; then the command in upper case and the
arguments. A word is at least one byte, so the loop reads at most as many words as bytes are
left. -/
def parseCommandLine (commandLine : Bytes) : Option (Bytes × List Bytes) :=
  match extract commandLine with
  | none => none
  | some (command, rest) => some (uppercase command, parseArgs rest.length rest)

/-! ## `run_interactive` -/

/-- The blanks `run_interactive` trims: `" \t"`. -/
def isBlank (b : UInt8) : Bool := b == 32 || b == 9

/-- `line.erase(0, line.find_first_not_of(" \t"))`, then
`line.erase(line.find_last_not_of(" \t") + 1)`. -/
def trim (line : Bytes) : Bytes := (line.dropWhile isBlank).rdropWhile isBlank

/-- The lines that end the loop. -/
def exitWords : List Bytes := [ascii "exit", ascii "quit", ascii "EXIT", ascii "QUIT"]

/-- `std::cin` as `run_interactive` reads it: the bytes not yet read, and whether the stream is
still good (neither `eofbit` nor `failbit` is set). -/
structure Input where
  rest : Bytes
  good : Bool
  deriving DecidableEq, Repr

/-- `std::getline(std::cin, line)`. On a good stream: erase `line`, then read up to the next
`'\n'`, which is consumed and not stored; reaching the end of the input instead sets `eofbit`
(and `failbit` when nothing was read), and the stream is no longer good. On a stream that is not
good the sentry fails first and `line` keeps its value. -/
def getline (input : Input) (line : Bytes) : Input × Bytes :=
  if input.good then
    match input.rest.span (fun b => b != 10) with
    | (l, []) => (⟨[], false⟩, l)
    | (l, _ :: rest) => (⟨rest, true⟩, l)
  else (input, line)

/-- The state `run_interactive` keeps from one round to the next: the client, `std::cin`, and
`line`. -/
structure Interactive where
  client : Client
  input : Input
  line : Bytes
  deriving DecidableEq, Repr

/-- What a round does that the server or the user sees. -/
inductive Effect
  /-- `send_data(resp_command)`: the bytes `execute` hands to `send`. -/
  | send (bytes : Bytes)
  /-- A line on `std::cout`: a response, or the message for a line that does not parse. -/
  | print (text : Bytes)
  deriving DecidableEq, Repr

/-- How a round ends: on to the next round, `break` at an exit word, or an exception out of
`execute` (`std::stoi` in `decode_response`), which nothing in `run_interactive` catches. -/
inductive Outcome
  | next
  | exit
  | thrown (what : String)
  deriving DecidableEq, Repr

namespace Interactive

/-- One round of the loop, with `send_data` returning `sent` and the `recv` of `receive_data`
returning `r` when the round executes a command: what it did, how it ended, and the state after
it. -/
def round (s : Interactive) (sent : Bool) (r : RecvResult) : List Effect × Outcome × Interactive :=
  let read := getline s.input s.line
  let s := { s with input := read.1, line := trim read.2 }
  if s.line.isEmpty then ([], .next, s)
  else if s.line ∈ exitWords then ([], .exit, s)
  else
    match parseCommandLine s.line with
    | none => ([.print (ascii "Error: Invalid command format")], .next, s)
    | some (command, args) =>
      let sends := if s.client.connected then [Effect.send (encodeCommand command args)] else []
      let out := s.client.execute sent r
      match out.1 with
      | .ok response => (sends ++ [.print response], .next, { s with client := out.2 })
      | .error what => (sends, .thrown what, { s with client := out.2 })

/-- The rounds of the loop, one for each outcome pair of the environment, until one ends it: the
effects in order, and how the last round ended (`.next` when the loop is still running). -/
def loop (s : Interactive) : List (Bool × RecvResult) → List Effect × Outcome
  | [] => ([], .next)
  | (sent, r) :: env =>
    let out := s.round sent r
    match out.2.1 with
    | .next => let rest := loop out.2.2 env; (out.1 ++ rest.1, rest.2)
    | o => (out.1, o)

end Interactive

/-- `run_interactive()` on the standard input `text`: nothing unless connected, else the loop
with `line` empty. -/
def runInteractive (c : Client) (text : Bytes) (env : List (Bool × RecvResult)) :
    List Effect × Outcome :=
  if c.connected then Interactive.loop ⟨c, ⟨text, true⟩, []⟩ env else ([], .exit)

end Client

end BlinkDb
