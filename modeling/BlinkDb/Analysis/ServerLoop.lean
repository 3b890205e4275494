import BlinkDb.Model.Server
import BlinkDb.Analysis.Framing

/-!
# The event loop can leave a response queued with nothing left to wake it

`handle_event` writes at most one queued response per `EPOLLOUT` event, and asks epoll for
`EPOLLOUT` again only when it finds the queue empty. With edge-triggered epoll a socket that
stays writable reports `EPOLLOUT` once. So when a client pipelines two commands in one `send`,
`handle_read` executes both and queues two responses, the one `EPOLLOUT` event sends the first,
and the second stays in `output_queue_` on a writable socket with no event queued
(`pipelined_response_left_queued`).

The run is computed from one spec lemma per branch of `handle_event` (`handleEvent_read`,
`handleEvent_write`), and `handle_read` from the framing lemma
`Connection.processCommands_session`, so it holds for every `std::hash`, every clock reading and
every state of the storage engine.
-/

set_option autoImplicit false

namespace BlinkDb

open Connection

namespace Loop

variable {σ : Type} (exec : Executor σ)

/-- INTERNAL: a run is its first action, then the rest. -/
theorem run_cons (w : Loop σ) (a : Action) (as : List Action) :
    w.run exec (a :: as) = (w.step exec a).run exec as := rfl

/-- INTERNAL: an empty run changes nothing. -/
theorem run_nil (w : Loop σ) : w.run exec [] = w := rfl

/-- `serve` of a client entry whose socket reports an event: `epoll_wait` takes the entry and the
server handles the flags the socket has. -/
theorem step_serve_client (w : Loop σ) {fd : Nat} {rest : List Ready} {s : Socket}
    (hr : w.ready = .client fd :: rest) (hs : w.sockets.lookup fd = some s) (hany : s.events.any = true) :
    w.step exec .serve = { w with ready := rest }.handleEvent exec fd s.events := by
  simp only [step, hr, hs, hany, if_true]

/-- `handle_event` for `EPOLLIN` alone on an open connection whose socket has bytes, when
`handle_read` keeps it open: the socket loses what `recv` returned, the connection and the server
state are `handle_read`'s, and `EPOLLOUT` is registered when responses are pending. -/
theorem handleEvent_read (w : Loop σ) (fd : Nat) {conn conn' : Connection} {s : Socket} {srv' : σ}
    (hc : w.conns.lookup fd = some conn) (hs : w.sockets.lookup fd = some s) (hne : s.unread ≠ [])
    (hread : conn.handleRead exec w.srv (.bytes (s.unread.take maxReadSize)) = (true, conn', srv')) :
    w.handleEvent exec fd ⟨true, false, false⟩ =
      let w' := { w with sockets := updateAt fd (fun s => { s with unread := s.unread.drop maxReadSize })
                                      w.sockets,
                         conns := updateAt fd (fun _ => conn') w.conns, srv := srv' }
      if conn'.hasPendingWrites then w'.modify fd true else w' := by
  have he : s.unread.isEmpty = false := by simpa using hne
  simp only [handleEvent, hc, hs, readEvent, Socket.recvResult, he, hread, Bool.false_eq_true,
    if_false, if_true, and_false]

/-- `handle_event` for `EPOLLOUT` alone on an open connection whose front message is non-empty
and fits in the send buffer: `send` takes the message, and `EPOLLOUT` is dropped only when
nothing is left. -/
theorem handleEvent_write (w : Loop σ) (fd : Nat) {conn : Connection} {s : Socket} {message : Bytes}
    {rest : List Bytes} (hc : w.conns.lookup fd = some conn) (hs : w.sockets.lookup fd = some s)
    (hconn : conn.state = .connected) (hq : conn.outputQueue = message :: rest) (hm : message ≠ [])
    (hroom : message.length ≤ s.room) :
    w.handleEvent exec fd ⟨false, true, false⟩ =
      let w' := { w with conns := updateAt fd (fun _ => { conn with outputQueue := rest }) w.conns,
                         sockets := updateAt fd (fun s => { s with room := s.room - message.length,
                                                                   delivered := s.delivered ++ message })
                                      w.sockets }
      if rest = [] then w'.modify fd false else w' := by
  have hpos : 0 < message.length := List.length_pos.2 hm
  have hr : s.sendResult message = .sent message.length := by
    rw [Socket.sendResult, if_neg (by omega), Nat.min_eq_right hroom]
  obtain ⟨b, bs, rfl⟩ := List.exists_cons_of_ne_nil hm
  simp only [handleEvent, hc, hs, writeEvent, hq, List.headD_cons, hr, ConnWorld.accepted, hconn,
    handleWrite, Connection.hasPendingWrites, Bool.false_eq_true, if_false, if_true, and_self, ne_eq,
    not_true_eq_false, List.length_cons, List.take_length]
  cases rest <;> simp [← hconn]

/-- The buffer holds a complete command: running the framer on it again would execute one. -/
def hasCompleteCommand (buf : Bytes) : Bool :=
  !(processCommands (fun _ _ _ => ([], ())) ⟨.connected, buf, []⟩ ()).2.1.outputQueue.isEmpty

/-- What a state with no queued event should satisfy: every open connection has read every byte
its client sent, holds no complete command, and has nothing left to send when its socket is
writable, that is when its send buffer has room. -/
def Settled (w : Loop σ) : Prop :=
  ∀ fd conn, w.conns.lookup fd = some conn → conn.state = .connected →
    ∃ s, w.sockets.lookup fd = some s ∧ s.unread = [] ∧ hasCompleteCommand conn.inputBuffer = false ∧
      (0 < s.room → conn.outputQueue = [])

end Loop

variable {T : Type} (ops : TableOps T) (now : Int)

/-- `execute_command` answers a command with no handler, and leaves the engine alone. -/
theorem executeCommand_unknown (eng : StorageEngine T) {command : Bytes} (args : List Bytes)
    (hs : command ≠ ascii "SET") (hg : command ≠ ascii "GET") (hd : command ≠ ascii "DEL") :
    Server.executeCommand ops now eng command args =
      (ascii "-ERR unknown command \x27" ++ command ++ ascii "\x27\r\n", eng) := by
  simp [Server.executeCommand, hs, hg, hd]

/-- A client pipelines two commands in one `send`, over a send buffer with room for more than one
response. `handle_read` executes both and queues two responses; the `EPOLLOUT` that
`EPOLL_CTL_MOD` reports sends the first; the second stays queued on a writable socket while no
event is left. -/
theorem pipelined_response_left_queued (eng : StorageEngine T) (sendBuffer : Nat)
    (hbuf : 29 < sendBuffer) :
    let w := (Loop.init eng 1024 sendBuffer).run (Server.executeCommand ops now)
      [.connect 5, .serve, .send 5 (encodeCommands [(ascii "PING", []), (ascii "PING", [])]), .serve,
        .serve]
    w.ready = [] ∧ ¬ w.Settled ∧
      w.conns.lookup 5 = some ⟨.connected, [], [ascii "-ERR unknown command \x27PING\x27\r\n"]⟩ ∧
      w.sockets.lookup 5 =
        some ⟨[], false, false, sendBuffer - 29, true, ascii "-ERR unknown command \x27PING\x27\r\n"⟩ := by
  have hunknown : Server.executeCommand ops now eng (ascii "PING") [] =
      (ascii "-ERR unknown command \x27PING\x27\r\n", eng) :=
    executeCommand_unknown ops now eng [] (by decide) (by decide) (by decide)
  have hrun : runCommands (Server.executeCommand ops now) eng [(ascii "PING", []), (ascii "PING", [])] =
      ([ascii "-ERR unknown command \x27PING\x27\r\n", ascii "-ERR unknown command \x27PING\x27\r\n"],
        eng) := by
    simp only [runCommands, show uppercase (ascii "PING") = ascii "PING" by decide, hunknown]
  have hlen : (encodeCommands [(ascii "PING", []), (ascii "PING", [])]).length ≤ maxReadSize := by decide
  have hmsg : (ascii "-ERR unknown command \x27PING\x27\r\n").length = 29 := by decide
  have hread : Connection.init.handleRead (Server.executeCommand ops now) eng
      (.bytes ((encodeCommands [(ascii "PING", []), (ascii "PING", [])]).take maxReadSize)) =
      (true, ⟨.connected, [], [ascii "-ERR unknown command \x27PING\x27\r\n",
        ascii "-ERR unknown command \x27PING\x27\r\n"]⟩, eng) := by
    rw [List.take_of_length_le hlen, handleRead, if_neg (by decide), if_neg (by decide),
      processCommands_session _ _ _ (by decide) rfl (List.nil_append _), hrun]
    · rfl
    · simp [encodeCommands, Client.encodeCommand]
  have hpos : decide (0 < sendBuffer) = true := decide_eq_true (by omega)
  have h3 : (((Loop.init eng 1024 sendBuffer).step (Server.executeCommand ops now) (.connect 5)).step
      (Server.executeCommand ops now) .serve).step (Server.executeCommand ops now)
        (.send 5 (encodeCommands [(ascii "PING", []), (ascii "PING", [])])) =
      ⟨eng, [(5, Connection.init)],
        [(5, ⟨encodeCommands [(ascii "PING", []), (ascii "PING", [])], false, false, sendBuffer, false, []⟩)],
        [], [.client 5], 1024, sendBuffer⟩ := rfl
  have hne : encodeCommands [(ascii "PING", []), (ascii "PING", [])] ≠ [] := by
    simp [encodeCommands, Client.encodeCommand]
  have h4 : (⟨eng, [(5, Connection.init)],
        [(5, ⟨encodeCommands [(ascii "PING", []), (ascii "PING", [])], false, false, sendBuffer, false, []⟩)],
        [], [.client 5], 1024, sendBuffer⟩ : Loop (StorageEngine T)).step
      (Server.executeCommand ops now) .serve =
      ⟨eng, [(5, ⟨.connected, [], [ascii "-ERR unknown command \x27PING\x27\r\n",
        ascii "-ERR unknown command \x27PING\x27\r\n"]⟩)], [(5, ⟨[], false, false, sendBuffer, true, []⟩)],
        [], [.client 5], 1024, sendBuffer⟩ := by
    have he : Socket.events ⟨encodeCommands [(ascii "PING", []), (ascii "PING", [])], false, false,
        sendBuffer, false, []⟩ = ⟨true, false, false⟩ := by
      simp only [Socket.events, List.isEmpty_eq_false.2 hne, Bool.not_false, Bool.true_or, Bool.false_and]
    refine Eq.trans (Loop.step_serve_client _ _ rfl rfl (by rw [he]; rfl)) ?_
    rw [he]
    refine Eq.trans (Loop.handleEvent_read _ _ 5 rfl rfl hne hread) ?_
    simp only [updateAt, ↓reduceIte, List.drop_eq_nil_of_le hlen]
    simp [Loop.modify, Loop.repoll, Loop.wake, updateAt, Socket.events, Flags.any, hpos,
      Connection.hasPendingWrites]
  have h5 : (⟨eng, [(5, ⟨.connected, [], [ascii "-ERR unknown command \x27PING\x27\r\n",
        ascii "-ERR unknown command \x27PING\x27\r\n"]⟩)], [(5, ⟨[], false, false, sendBuffer, true, []⟩)],
        [], [.client 5], 1024, sendBuffer⟩ : Loop (StorageEngine T)).step
      (Server.executeCommand ops now) .serve =
      ⟨eng, [(5, ⟨.connected, [], [ascii "-ERR unknown command \x27PING\x27\r\n"]⟩)],
        [(5, ⟨[], false, false, sendBuffer - 29, true, ascii "-ERR unknown command \x27PING\x27\r\n"⟩)],
        [], [], 1024, sendBuffer⟩ := by
    have he : Socket.events ⟨[], false, false, sendBuffer, true, []⟩ = ⟨false, true, false⟩ := by
      simp [Socket.events, hpos]
    refine Eq.trans (Loop.step_serve_client _ _ rfl rfl (by rw [he]; rfl)) ?_
    rw [he]
    exact Eq.trans (Loop.handleEvent_write _ _ 5 rfl rfl rfl rfl (by decide) (by dsimp only; omega)) rfl
  have hw : (Loop.init eng 1024 sendBuffer).run (Server.executeCommand ops now)
      [.connect 5, .serve, .send 5 (encodeCommands [(ascii "PING", []), (ascii "PING", [])]), .serve,
        .serve] =
      ⟨eng, [(5, ⟨.connected, [], [ascii "-ERR unknown command \x27PING\x27\r\n"]⟩)],
        [(5, ⟨[], false, false, sendBuffer - 29, true, ascii "-ERR unknown command \x27PING\x27\r\n"⟩)],
        [], [], 1024, sendBuffer⟩ := by
    rw [Loop.run_cons, Loop.run_cons, Loop.run_cons, h3, Loop.run_cons, h4, Loop.run_cons, h5,
      Loop.run_nil]
  show Loop.ready _ = [] ∧ _
  rw [hw]
  refine ⟨rfl, fun h => ?_, rfl, rfl⟩
  obtain ⟨s, hs, -, -, hq⟩ := h 5 _ rfl rfl
  cases hs
  exact absurd (hq (show 0 < sendBuffer - 29 by omega)) (by simp)

/-- The run above over a send buffer of 64 KiB, a hash table hashing by length and an empty
engine. -/
theorem pipelined_response_left_queued_64k :
    29 < 65536 ∧
      let w := (Loop.init (StorageEngine.init 64) 1024 65536).run
        (Server.executeCommand (HashTable.ops List.length) 0)
        [.connect 5, .serve, .send 5 (encodeCommands [(ascii "PING", []), (ascii "PING", [])]), .serve,
          .serve]
      w.ready = [] ∧ ¬ w.Settled ∧
        w.conns.lookup 5 = some ⟨.connected, [], [ascii "-ERR unknown command \x27PING\x27\r\n"]⟩ ∧
        w.sockets.lookup 5 =
          some ⟨[], false, false, 65536 - 29, true, ascii "-ERR unknown command \x27PING\x27\r\n"⟩ :=
  ⟨by decide, pipelined_response_left_queued (HashTable.ops List.length) 0 (StorageEngine.init 64) 65536
    (by decide)⟩

end BlinkDb
