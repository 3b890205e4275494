import BlinkDb.Model.Bytes

/-!
# `Connection` (`connection.cpp`)

One client connection of the server: its state, the bytes received and not yet framed
(`input_buffer_`), and the responses not yet sent (`output_queue_`, front first). The socket
calls are the environment's: `handleRead` takes what `recv` returned and `handleWrite` what
`send` returned, so a run of the connection is a sequence of such outcomes.

`process_commands` frames the input itself, without `RespProtocol::parse`. Its outer loop scans
for a `'*'`, reads the count line with `std::stoi`, then that many bulk strings (`readBulks`),
each a `'$'`, a length line and that many bytes plus two that are not looked at. A complete
command goes to `Server::execute_command` with its name in upper case, the response joins the
output queue, and the command's bytes leave the buffer; the scan starts again at `0`. The
dispatcher is a parameter: a server state `σ` and the function `execute_command` computes on it.

The outer loop runs for at most `fuel` rounds. Each round either moves the scan position up
or removes at least one byte from the buffer, so `2 * size + 2` rounds reach its exit.

A run of one connection (`ConnWorld.run`) is the sequence of `handle_read` and `handle_write`
calls `Server::handle_event` makes on it, each with the outcome of its socket call. When a
handler returns `false` the server calls `close_connection`, and the run stops (`none`).

Not modelled: the file descriptor, the server pointer (its `execute_command` is the dispatcher),
`last_activity_` and `check_timeout`, `reset`, and the messages written to `std::cerr`.
-/

set_option autoImplicit false

namespace BlinkDb

/-- `MAX_READ_SIZE`: the size of the buffer `handle_read` passes to `recv`. -/
def maxReadSize : Nat := 65536

/-- `MAX_INPUT_BUFFER_SIZE`: 10 MiB. -/
def maxInputBufferSize : Nat := 10485760

/-- `errno` after a failed socket call: `EAGAIN` or `EWOULDBLOCK`, or another error. -/
inductive Errno
  | wouldBlock
  | other
  deriving DecidableEq, Repr

/-- What `recv` returned: the bytes read (none at all is the `0` of an orderly shutdown), or
`-1` with `errno`. -/
inductive RecvResult
  | bytes (b : Bytes)
  | error (errno : Errno)
  deriving DecidableEq, Repr

/-- What `send` returned: the number of bytes it accepted, or `-1` with `errno`. -/
inductive SendResult
  | sent (n : Nat)
  | error (errno : Errno)
  deriving DecidableEq, Repr

/-- `Connection::State`. -/
inductive ConnState
  | connected
  | closing
  | closed
  deriving DecidableEq, Repr

/-- A `Connection`: the fields its operations read and write. -/
structure Connection where
  state : ConnState
  inputBuffer : Bytes
  outputQueue : List Bytes
  deriving DecidableEq, Repr

/-- `Server::execute_command` over a server state `σ`: the response and the new state. -/
abbrev Executor (σ : Type) := σ → Bytes → List Bytes → Bytes × σ

namespace Connection

/-- A new connection: `CONNECTED`, nothing buffered or queued. -/
def init : Connection := ⟨.connected, [], []⟩

/-- `has_pending_writes()`. -/
def hasPendingWrites (c : Connection) : Bool := !c.outputQueue.isEmpty

/-- `add_response(response)`: queue it while connected. -/
def addResponse (c : Connection) (response : Bytes) : Connection :=
  if c.state = .connected then { c with outputQueue := c.outputQueue ++ [response] } else c

/-- Queueing a response leaves the connection's state. -/
@[simp] theorem addResponse_state (c : Connection) (response : Bytes) :
    (c.addResponse response).state = c.state := by
  unfold addResponse; split <;> rfl

/-- INTERNAL: queueing a response leaves the input buffer alone. -/
@[simp] theorem addResponse_inputBuffer (c : Connection) (response : Bytes) :
    (c.addResponse response).inputBuffer = c.inputBuffer := by
  unfold addResponse; split <;> rfl

/-- The element loop of `process_commands`: `count` bulk strings from index `current` of
`buf`. `.error ()` is `return false` (a length line `std::stoi` rejects); `none` is
`complete = false` (no `'$'` there yet, no line end yet, or not all the bytes yet); otherwise the
arguments and the index after the last one. A negative length reads as `""` with no payload. -/
def readBulks (buf : Bytes) : Nat → Nat → Except Unit (Option (List Bytes × Nat))
  | 0, current => .ok (some ([], current))
  | count + 1, current =>
    if buf.length ≤ current ∨ buf.getD current 0 ≠ 36 then .ok none
    else
      match stringFind buf crlf current with
      | none => .ok none
      | some lenEnd =>
        match stoi (substr buf (current + 1) (lenEnd - current - 1)) with
        | none => .error ()
        | some bulkLen =>
          if bulkLen < 0 then
            (readBulks buf count (lenEnd + 2)).map (Option.map fun r => ([] :: r.1, r.2))
          else if buf.length < lenEnd + 2 + bulkLen.toNat + 2 then .ok none
          else
            (readBulks buf count (lenEnd + 2 + bulkLen.toNat + 2)).map
              (Option.map fun r => (substr buf (lenEnd + 2) bulkLen.toNat :: r.1, r.2))

/-- A complete command: execute it and queue its response (`if (!args.empty())`). -/
def dispatch {σ : Type} (exec : Executor σ) (c : Connection) (srv : σ) :
    List Bytes → Connection × σ
  | [] => (c, srv)
  | command :: args => let r := exec srv (uppercase command) args; (c.addResponse r.1, r.2)

/-- Executing a command leaves the connection's state. -/
@[simp] theorem dispatch_state {σ : Type} (exec : Executor σ) (c : Connection) (srv : σ) (args : List Bytes) :
    (dispatch exec c srv args).1.state = c.state := by
  cases args <;> simp [dispatch]

/-- Executing a command leaves the input buffer to the loop. -/
@[simp] theorem dispatch_inputBuffer {σ : Type} (exec : Executor σ) (c : Connection) (srv : σ)
    (args : List Bytes) : (dispatch exec c srv args).1.inputBuffer = c.inputBuffer := by
  cases args <;> simp [dispatch, addResponse]; split <;> rfl

/-- The `while (pos < input_buffer_.size())` loop of `process_commands`, for at most `fuel`
rounds from scan position `pos`. The `Bool` is the return value. -/
def processLoop {σ : Type} (exec : Executor σ) : Nat → Nat → Connection → σ → Bool × Connection × σ
  | 0, _, c, srv => (true, c, srv)
  | fuel + 1, pos, c, srv =>
    if c.inputBuffer.length ≤ pos then (true, c, srv)
    else if c.inputBuffer.getD pos 0 = 42 then
      match stringFind c.inputBuffer crlf pos with
      | none => (true, c, srv)
      | some endPos =>
        match stoi (substr c.inputBuffer (pos + 1) (endPos - pos - 1)) with
        | none => (false, c, srv)
        | some arraySize =>
          if arraySize ≤ 0 then (false, c, srv)
          else
            match readBulks c.inputBuffer arraySize.toNat (endPos + 2) with
            | .error () => (false, c, srv)
            | .ok none => (true, c, srv)
            | .ok (some (args, current)) =>
              let r := dispatch exec c srv args
              processLoop exec fuel 0 { r.1 with inputBuffer := r.1.inputBuffer.drop current } r.2
    else processLoop exec fuel (pos + 1) c srv

/-- `process_commands()`. -/
def processCommands {σ : Type} (exec : Executor σ) (c : Connection) (srv : σ) :
    Bool × Connection × σ :=
  processLoop exec (2 * c.inputBuffer.length + 2) 0 c srv

/-- `handle_read()` with `recv` returning `r`: past the 10 MiB guard, append and frame. -/
def handleRead {σ : Type} (exec : Executor σ) (c : Connection) (srv : σ) (r : RecvResult) :
    Bool × Connection × σ :=
  if c.state ≠ .connected then (false, c, srv)
  else
    match r with
    | .bytes [] => (false, { c with state := .closing }, srv)
    | .bytes b =>
      if maxInputBufferSize < c.inputBuffer.length + b.length then (false, c, srv)
      else processCommands exec { c with inputBuffer := c.inputBuffer ++ b } srv
    | .error e => (e = .wouldBlock, c, srv)

/-- `handle_write()` with `send` of the front message returning `r`. -/
def handleWrite (c : Connection) (r : SendResult) : Bool × Connection :=
  if c.state ≠ .connected then (true, c)
  else
    match c.outputQueue with
    | [] => (true, c)
    | message :: rest =>
      match r with
      | .sent 0 => (false, c)
      | .sent n =>
        if n = message.length then (true, { c with outputQueue := rest })
        else (true, { c with outputQueue := message.drop n :: rest })
      | .error e => (e = .wouldBlock, c)

end Connection

/-! ## Runs of one connection -/

/-- One connection as its peer sees it: the connection, the server state, and the bytes that
`send` has accepted so far, in order. -/
structure ConnWorld (σ : Type) where
  conn : Connection
  srv : σ
  sent : Bytes

/-- A call `Server::handle_event` makes on the connection, with the outcome of its socket
call: `handle_read` where `recv` returned the bytes `chunk`, or `handle_write` where `send`
returned `r`. -/
inductive ConnEvent
  | read (chunk : Bytes)
  | write (r : SendResult)
  deriving DecidableEq, Repr

namespace ConnWorld

variable {σ : Type} (exec : Executor σ)

/-- A new connection, on a server in state `srv`. -/
def init (srv : σ) : ConnWorld σ := ⟨Connection.init, srv, []⟩

/-- The bytes `send` accepts from the front message when it returns `r`. -/
def accepted (c : Connection) (r : SendResult) : Bytes :=
  if c.state = .connected then
    match c.outputQueue, r with
    | message :: _, .sent n => message.take n
    | _, _ => []
  else []

/-- One call; `none` when the handler returns `false` and the server closes the connection. -/
def step (w : ConnWorld σ) : ConnEvent → Option (ConnWorld σ)
  | .read chunk =>
    let r := w.conn.handleRead exec w.srv (.bytes chunk)
    if r.1 then some { w with conn := r.2.1, srv := r.2.2 } else none
  | .write r =>
    let out := w.conn.handleWrite r
    if out.1 then some { w with conn := out.2, sent := w.sent ++ accepted w.conn r } else none

/-- A sequence of calls, stopping at the first that closes the connection. -/
def run : ConnWorld σ → List ConnEvent → Option (ConnWorld σ)
  | w, [] => some w
  | w, e :: es => (w.step exec e).bind fun w' => run w' es

end ConnWorld

end BlinkDb
