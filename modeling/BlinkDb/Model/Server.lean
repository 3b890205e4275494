import BlinkDb.Model.StorageEngine
import BlinkDb.Model.Connection

/-!
# `Server` (`client.cpp`, `server.h`)

The server of part B: the handlers `init` registers for `SET`, `GET` and `DEL` over the
storage engine of part A, `execute_command`, and the event loop of `run` and `handle_event`
over edge-triggered epoll.

`executeCommand ops now` is `execute_command` with every clock reading of the command equal to
`now`. The `try`/`catch` around a handler catches exceptions no modelled handler throws (an
allocation failure); `std::stoi` in `SET` has its own.

The event loop is a state machine over `Loop`: the connections (`connections_`), the kernel's
side of each client socket (`Socket`: the bytes not yet read, whether a `FIN` or an `RST` has
arrived, the room in the send buffer, whether `EPOLLOUT` is registered, and what `send` has
accepted), the connections waiting for `accept` with what has arrived on them, and epoll's ready
list. The environment's actions (`Action`) are a client connecting, a segment arriving, the
client acknowledging bytes, a `FIN` or an `RST`; `serve` is one entry taken by `epoll_wait` and
passed to `accept_connection` or `handle_event`.

Epoll follows Linux: a wake-up queues a socket's entry unless it is already queued, so segments
that arrive before `epoll_wait` takes the entry make one event; an entry reports the flags its
socket has when it is taken, and none means it is skipped; the edge-triggered client entries
leave the list when taken, the level-triggered listening socket stays while connections wait;
`EPOLL_CTL_ADD` and `EPOLL_CTL_MOD` poll the socket and queue it when it is ready, and
`EPOLL_CTL_DEL` drops it. A segment, a `FIN` or an `RST` wakes a socket; freed room wakes it when
`EPOLLOUT` is registered and the send buffer had no room. A `send` takes as many bytes as there
is room for and fails with `EAGAIN` when there is none.

Not modelled: the listening socket's own setup in `init`, `stop` and the `running_` flag,
`EINTR`, the `MAX_EVENTS` batching of `epoll_wait` (entries are taken one at a time, in order),
and the reaper thread of the storage engine. The kernel's send-buffer wake-up is approximated: in
Linux freed room wakes a socket when a `send` found too little room or `poll` found none, here
whenever the room was `0`; the two differ only after a `send` that filled the buffer exactly.
-/

set_option autoImplicit false

namespace BlinkDb

namespace Server

/-! ## Command handlers -/

/-- The handlers' answer to a wrong number of arguments. -/
def wrongArguments (name : String) : Bytes :=
  ascii ("-ERR wrong number of arguments for \x27" ++ name ++ "\x27 command\r\n")

variable {T : Type} (ops : TableOps T) (now : Int)

/-- The `SET` handler: key and value, and an optional `EX` with a ttl in seconds. The default ttl
is `seconds::max()`; `none` is a ttl `std::stoi` rejects. -/
def setHandler (eng : StorageEngine T) : List Bytes → Bytes × StorageEngine T
  | key :: value :: rest =>
    let ttl : Option Int :=
      match rest with
      | ex :: t :: _ => if ex = ascii "EX" then stoi t else some secondsMax
      | _ => some secondsMax
    match ttl with
    | none => (ascii "-ERR invalid expire time in \x27set\x27 command\r\n", eng)
    | some ttl => (ascii "+OK\r\n", eng.set ops key value ttl now)
  | _ => (wrongArguments "set", eng)

/-- The `GET` handler: the value as a bulk string, or the null bulk string when `get` answers
`""`. -/
def getHandler (eng : StorageEngine T) : List Bytes → Bytes × StorageEngine T
  | [key] =>
    let r := eng.get ops key now now
    (if r.1.isEmpty then ascii "$-1\r\n" else 36 :: toDecimal r.1.length ++ crlf ++ r.1 ++ crlf, r.2)
  | _ => (wrongArguments "get", eng)

/-- The `DEL` handler: `:1` when the key was removed, `:0` otherwise. -/
def delHandler (eng : StorageEngine T) : List Bytes → Bytes × StorageEngine T
  | [key] =>
    let r := eng.del ops key
    (58 :: toDecimal (if r.1 then 1 else 0) ++ crlf, r.2)
  | _ => (wrongArguments "del", eng)

/-- `execute_command(command, args)`: the handler registered under the name, or the error for an
unknown command. -/
def executeCommand : Executor (StorageEngine T) := fun eng command args =>
  if command = ascii "SET" then setHandler ops now eng args
  else if command = ascii "GET" then getHandler ops now eng args
  else if command = ascii "DEL" then delHandler ops eng args
  else (ascii "-ERR unknown command \x27" ++ command ++ ascii "\x27\r\n", eng)

end Server

/-! ## The event loop -/

/-- The flags of an event `epoll_wait` reports for a client socket. -/
structure Flags where
  /-- `EPOLLIN`. -/
  readable : Bool
  /-- `EPOLLOUT`. -/
  writable : Bool
  /-- `EPOLLERR`, `EPOLLHUP` or `EPOLLRDHUP`. -/
  hangup : Bool
  deriving DecidableEq, Repr

/-- Whether an event reports anything: `epoll_wait` skips an entry that reports nothing. -/
def Flags.any (f : Flags) : Bool := f.readable || f.writable || f.hangup

/-- An entry of epoll's ready list: the listening socket, or a client socket. The list holds
each entry at most once; which flags an entry reports is read from its socket when
`epoll_wait` takes it. -/
inductive Ready
  | listen
  | client (fd : Nat)
  deriving DecidableEq, Repr

/-- The kernel's side of a client socket. -/
structure Socket where
  /-- Bytes the client sent that `recv` has not returned. -/
  unread : Bytes
  /-- Whether the client's `FIN` has arrived: `recv` returns `0` once `unread` is empty. -/
  eof : Bool
  /-- Whether the client's `RST` has arrived. -/
  reset : Bool
  /-- The free space of the send buffer: what a `send` can take. -/
  room : Nat
  /-- Whether `EPOLLOUT` is registered (`EPOLLIN | EPOLLET` always is). -/
  wantsWrite : Bool
  /-- What `send` has accepted, in order: the bytes on their way to the client. -/
  delivered : Bytes
  deriving DecidableEq, Repr

namespace Socket

/-- The socket of a new connection, with `room` bytes of send buffer. -/
def fresh (room : Nat) : Socket := ⟨[], false, false, room, false, []⟩

/-- What `poll` reports for the socket, within its registration (`EPOLLIN`, `EPOLLOUT` when
registered, and `EPOLLERR` and `EPOLLHUP`, which always are): readable while bytes or a `FIN`
wait, writable while the send buffer has room, hung up once reset. -/
def events (s : Socket) : Flags :=
  ⟨!s.unread.isEmpty || s.eof, s.wantsWrite && decide (0 < s.room), s.reset⟩

/-- A non-blocking `recv` of at most `MAX_READ_SIZE` bytes: the bytes that wait, `0` at the end
of the stream, `EAGAIN` otherwise. -/
def recvResult (s : Socket) : RecvResult :=
  if s.unread.isEmpty then (if s.eof then .bytes [] else .error .wouldBlock)
  else .bytes (s.unread.take maxReadSize)

/-- A non-blocking `send` of `message`: as many bytes as the send buffer has room for, `EAGAIN`
when it has none. -/
def sendResult (s : Socket) (message : Bytes) : SendResult :=
  if s.room = 0 then .error .wouldBlock else .sent (min s.room message.length)

end Socket

/-- The server and the kernel state it sees. -/
structure Loop (σ : Type) where
  srv : σ
  /-- `connections_`, by file descriptor. -/
  conns : List (Nat × Connection)
  /-- The client sockets registered with epoll, by file descriptor. -/
  sockets : List (Nat × Socket)
  /-- The connections waiting for `accept`, by the descriptor `accept` will return, with what
  has arrived on them. -/
  backlog : List (Nat × Socket)
  /-- Epoll's ready list, oldest first. -/
  ready : List Ready
  /-- `max_connections_`, as the `size_t` it is compared as. -/
  maxConnections : Nat
  /-- The send buffer of a new connection's socket. -/
  sendBuffer : Nat

/-- The environment's actions and the server's own step. -/
inductive Action
  /-- A client connects; `accept` will return `fd`. -/
  | connect (fd : Nat)
  /-- A segment from the client of `fd` arrives with `bytes`. -/
  | send (fd : Nat) (bytes : Bytes)
  /-- The client of `fd` acknowledges `n` bytes: the send buffer frees that much room. -/
  | drain (fd : Nat) (n : Nat)
  /-- The client of `fd` closes its side: a `FIN` arrives. -/
  | hangup (fd : Nat)
  /-- The connection of `fd` is reset: an `RST` arrives. -/
  | reset (fd : Nat)
  /-- `epoll_wait` takes the oldest entry of the ready list, and the server handles it. -/
  | serve
  deriving DecidableEq, Repr

/-- INTERNAL: change the entry of `fd` in a table by file descriptor. -/
def updateAt {α : Type} (fd : Nat) (f : α → α) : List (Nat × α) → List (Nat × α)
  | [] => []
  | (k, v) :: rest => if k = fd then (k, f v) :: rest else (k, v) :: updateAt fd f rest

/-- INTERNAL: remove the entry of `fd` from a table by file descriptor. -/
def eraseAt {α : Type} (fd : Nat) (l : List (Nat × α)) : List (Nat × α) :=
  l.filter fun e => e.1 ≠ fd

namespace Loop

variable {σ : Type} (exec : Executor σ)

/-- A server after `init`, before any connection, with `max_connections_` set and new sockets'
send buffers of `sendBuffer` bytes. -/
def init (srv : σ) (maxConnections sendBuffer : Nat) : Loop σ :=
  ⟨srv, [], [], [], [], maxConnections, sendBuffer⟩

/-- The kernel's wake-up of an entry (`ep_poll_callback`): queue it unless it is queued. -/
def wake (w : Loop σ) (e : Ready) : Loop σ :=
  if e ∈ w.ready then w else { w with ready := w.ready ++ [e] }

/-- `EPOLL_CTL_ADD` and `EPOLL_CTL_MOD` poll the socket of `fd` and queue it when it reports an
event. -/
def repoll (w : Loop σ) (fd : Nat) : Loop σ :=
  match w.sockets.lookup fd with
  | some s => if s.events.any then w.wake (.client fd) else w
  | none => w

/-- `close_connection(fd)`: `EPOLL_CTL_DEL`, which drops the socket's entry from the ready
list, delete the connection, close the socket. -/
def closeConnection (w : Loop σ) (fd : Nat) : Loop σ :=
  { w with conns := eraseAt fd w.conns, sockets := eraseAt fd w.sockets,
           ready := w.ready.filter (· ≠ .client fd) }

/-- `EPOLL_CTL_MOD` with `EPOLLIN | EPOLLET`, and `EPOLLOUT` when `out`. -/
def modify (w : Loop σ) (fd : Nat) (out : Bool) : Loop σ :=
  { w with sockets := updateAt fd (fun s => { s with wantsWrite := out }) w.sockets }.repoll fd

/-- `accept_connection()`: take the oldest waiting connection (the level-triggered listening
socket stays on the ready list while more wait), reject it when `max_connections_` are open,
else register it for `EPOLLIN | EPOLLET` with a new `Connection`. The new socket and
`connections_[client_fd] = conn` take the place of whatever the tables held under `fd`. -/
def acceptConnection (w : Loop σ) : Loop σ :=
  match w.backlog with
  | [] => w
  | (fd, s) :: rest =>
    let w := { w with backlog := rest }
    let w := if rest.isEmpty then w else w.wake .listen
    if w.maxConnections ≤ w.conns.length then w
    else
      { w with conns := eraseAt fd w.conns ++ [(fd, Connection.init)],
               sockets := eraseAt fd w.sockets ++ [(fd, s)] }.repoll fd

/-- The `EPOLLIN` branch of `handle_event`: one `recv` and `handle_read`; register `EPOLLOUT`
when responses are pending. `false` is the `return` after `close_connection`. -/
def readEvent (w : Loop σ) (fd : Nat) (conn : Connection) (s : Socket) : Bool × Loop σ :=
  let w := { w with sockets := updateAt fd (fun s => { s with unread := s.unread.drop maxReadSize })
                                 w.sockets }
  let out := conn.handleRead exec w.srv s.recvResult
  if out.1 then
    let w := { w with conns := updateAt fd (fun _ => out.2.1) w.conns, srv := out.2.2 }
    (true, if out.2.1.hasPendingWrites then w.modify fd true else w)
  else (false, w.closeConnection fd)

/-- The `EPOLLOUT` branch of `handle_event`: `handle_write`, whose `send` of the front message
takes what the send buffer has room for; close on `false`, else stop watching `EPOLLOUT` when
nothing is pending. -/
def writeEvent (w : Loop σ) (fd : Nat) (conn : Connection) (s : Socket) : Loop σ :=
  let r := s.sendResult (conn.outputQueue.headD [])
  let out := conn.handleWrite r
  if out.1 then
    let sent := ConnWorld.accepted conn r
    let w := { w with conns := updateAt fd (fun _ => out.2) w.conns,
                      sockets := updateAt fd
                        (fun s => { s with room := s.room - sent.length, delivered := s.delivered ++ sent })
                        w.sockets }
    if out.2.hasPendingWrites then w else w.modify fd false
  else w.closeConnection fd

/-- `handle_event(fd, events)`. -/
def handleEvent (w : Loop σ) (fd : Nat) (flags : Flags) : Loop σ :=
  match w.conns.lookup fd, w.sockets.lookup fd with
  | some conn, some s =>
    if flags.hangup then w.closeConnection fd
    else
      let r := if flags.readable then w.readEvent exec fd conn s else (true, w)
      if r.1 ∧ flags.writable then
        match r.2.conns.lookup fd, r.2.sockets.lookup fd with
        | some conn', some s' => r.2.writeEvent fd conn' s'
        | _, _ => r.2
      else r.2
  | _, _ => { w with sockets := eraseAt fd w.sockets, ready := w.ready.filter (· ≠ .client fd) }

/-- INTERNAL: change the socket of `fd`, registered or still waiting for `accept`. -/
def updateSocket (w : Loop σ) (fd : Nat) (f : Socket → Socket) : Loop σ :=
  if (w.sockets.lookup fd).isSome then { w with sockets := updateAt fd f w.sockets }
  else { w with backlog := updateAt fd f w.backlog }

/-- One action. A segment, a `FIN` or an `RST` wakes a registered socket's entry; freed room
wakes it when `EPOLLOUT` is registered and the send buffer was full. -/
def step (w : Loop σ) : Action → Loop σ
  | .connect fd => { w with backlog := w.backlog ++ [(fd, Socket.fresh w.sendBuffer)] }.wake .listen
  | .send fd bytes =>
    if bytes = [] then w
    else
      let w' := w.updateSocket fd fun s => { s with unread := s.unread ++ bytes }
      if (w.sockets.lookup fd).isSome then w'.wake (.client fd) else w'
  | .drain fd n =>
    let w' := w.updateSocket fd fun s => { s with room := s.room + n }
    match w.sockets.lookup fd with
    | some s => if s.wantsWrite ∧ s.room = 0 ∧ 0 < n then w'.wake (.client fd) else w'
    | none => w'
  | .hangup fd =>
    let w' := w.updateSocket fd fun s => { s with eof := true }
    if (w.sockets.lookup fd).isSome then w'.wake (.client fd) else w'
  | .reset fd =>
    let w' := w.updateSocket fd fun s => { s with reset := true }
    if (w.sockets.lookup fd).isSome then w'.wake (.client fd) else w'
  | .serve =>
    match w.ready with
    | [] => w
    | .listen :: rest => { w with ready := rest }.acceptConnection
    | .client fd :: rest =>
      match w.sockets.lookup fd with
      | some s =>
        if s.events.any then { w with ready := rest }.handleEvent exec fd s.events
        else { w with ready := rest }
      | none => { w with ready := rest }

/-- A sequence of actions. -/
def run (w : Loop σ) (actions : List Action) : Loop σ := actions.foldl (step exec) w

end Loop

end BlinkDb
