import BlinkDb.Analysis.LoopClients
import BlinkDb.Analysis.ServerLoop

/-!
# A client that waits for each reply gets it, piece by piece

`Client::execute` sends one command and blocks in `recv` until the reply has come. Against the
event loop this use makes progress. Take a state where epoll has no entry queued and the
client's connection is idle: `CONNECTED`, nothing buffered or queued, nothing unread, no `FIN`
or `RST`, `room` bytes of free send buffer and `EPOLLOUT` not registered (`Idle`). A command of
at most `MAX_READ_SIZE` bytes arrives and wakes the socket. Serving it executes the command,
queues its reply and registers `EPOLLOUT`, which queues the socket again. Each `EPOLLOUT` event
sends as much of the reply as the send buffer has room for. A piece shorter than the rest fills
the buffer, and the client's acknowledgement of it frees the room and wakes the socket for the
next piece (`run_replyRounds`); after the last piece `EPOLLOUT` is dropped, and its
acknowledgement wakes nothing. The loop is idle again, and only the server's state and the bytes
sent to the client have changed (`Idle.round_trip`). So a whole session of such requests
delivers every reply, in order, each once, and leaves nothing pending
(`waiting_client_gets_every_reply`).

The size bound is needed. `handle_read` calls `recv` once per event, for at most
`MAX_READ_SIZE` bytes, and with `EPOLLET` only a new arrival wakes the socket again. A command
longer than that whose segments have all arrived when the server reads is read only in part: the
loop then has no event left, however often it polls, and the client waits for a reply that does
not come (`long_request_stalls`). A segment that arrives after the read wakes the socket
instead, so which of the two happens depends on when the segments arrive.
-/
set_option autoImplicit false

open scoped List

namespace BlinkDb

open Connection (Fits runCommands)
open Client (encodeCommand)

/-! ## Tables of one descriptor -/

section Tables

variable {α : Type} {fd : Nat}

/-- INTERNAL: two updates of one descriptor are one. -/
theorem updateAt_updateAt (f g : α → α) :
    ∀ l : List (Nat × α), updateAt fd f (updateAt fd g l) = updateAt fd (fun x => f (g x)) l
  | [] => rfl
  | (k, v) :: rest => by
    by_cases hk : k = fd
    · simp [updateAt, hk]
    · simp [updateAt, hk, updateAt_updateAt f g rest]

/-- INTERNAL: an update reads only the entry that `lookup` finds. -/
theorem updateAt_congr {f g : α → α} {x : α} :
    ∀ {l : List (Nat × α)}, l.lookup fd = some x → f x = g x → updateAt fd f l = updateAt fd g l
  | [], h, _ => nomatch h
  | (k, v) :: rest, h, hfg => by
    by_cases hk : k = fd
    · subst hk
      rw [HashTable.lookup_cons_pair, if_pos rfl, Option.some.injEq] at h
      subst h
      simp [updateAt, hfg]
    · rw [HashTable.lookup_cons_pair, if_neg (Ne.symm hk)] at h
      simp [updateAt, hk, updateAt_congr h hfg]

/-- INTERNAL: an update that leaves the entry `lookup` finds as it is changes nothing. -/
theorem updateAt_of_lookup {f : α → α} {x : α} :
    ∀ {l : List (Nat × α)}, l.lookup fd = some x → f x = x → updateAt fd f l = l
  | [], h, _ => nomatch h
  | (k, v) :: rest, h, hf => by
    by_cases hk : k = fd
    · subst hk
      rw [HashTable.lookup_cons_pair, if_pos rfl, Option.some.injEq] at h
      subst h
      simp [updateAt, hf]
    · rw [HashTable.lookup_cons_pair, if_neg (Ne.symm hk)] at h
      simp [updateAt, hk, updateAt_of_lookup h hf]

/-- INTERNAL: an update of the entry `lookup` finds is the update to its new value. -/
theorem updateAt_const {f : α → α} {x : α} {l : List (Nat × α)} (h : l.lookup fd = some x) :
    updateAt fd f l = updateAt fd (fun _ => f x) l :=
  updateAt_congr h rfl

/-- INTERNAL: the entry `lookup` finds after an update of it. -/
theorem lookup_updateAt_of_lookup {f : α → α} {x : α} {l : List (Nat × α)}
    (h : l.lookup fd = some x) : (updateAt fd f l).lookup fd = some (f x) := by
  rw [lookup_updateAt, if_pos rfl, h]; rfl

/-- INTERNAL: removing a descriptor after updating it is removing it. -/
theorem eraseAt_updateAt (f : α → α) :
    ∀ l : List (Nat × α), eraseAt fd (updateAt fd f l) = eraseAt fd l
  | [] => rfl
  | (k, v) :: rest => by
    by_cases hk : k = fd
    · subst hk; simp [updateAt, eraseAt]
    · have ih := eraseAt_updateAt f rest
      simp only [eraseAt, ne_eq, decide_not] at ih ⊢
      simp [updateAt, hk, ih]

end Tables

namespace Server

/-- `execute_command` never answers with nothing: every handler's reply and the unknown-command
error have at least one byte. -/
theorem executeCommand_ne_nil {T : Type} (ops : TableOps T) (now : Int) (eng : StorageEngine T)
    (command : Bytes) (args : List Bytes) : (Server.executeCommand ops now eng command args).1 ≠ [] := by
  unfold Server.executeCommand
  split_ifs
  · unfold Server.setHandler
    split
    · dsimp only
      split <;> exact List.cons_ne_nil _ _
    · exact List.cons_ne_nil _ _
  · unfold Server.getHandler
    split
    · dsimp only
      split <;> exact List.cons_ne_nil _ _
    · exact List.cons_ne_nil _ _
  · unfold Server.delHandler
    split <;> exact List.cons_ne_nil _ _
  · exact List.append_ne_nil_of_left_ne_nil (List.append_ne_nil_of_left_ne_nil (List.cons_ne_nil _ _) _) _

end Server

namespace Loop

variable {σ : Type} (exec : Executor σ)

/-- The loop waits for the client of `fd`: epoll has no entry queued, the connection is
`CONNECTED` with nothing buffered or queued, and its socket has nothing unread, no `FIN` or
`RST`, `room` bytes of free send buffer, and `EPOLLOUT` not registered. `delivered` is what
`send` has accepted on it so far. -/
structure Idle (w : Loop σ) (fd room : Nat) (delivered : Bytes) : Prop where
  ready : w.ready = []
  conn : w.conns.lookup fd = some Connection.init
  socket : w.sockets.lookup fd = some ⟨[], false, false, room, false, delivered⟩

/-! ## Steps on one known socket -/

/-- INTERNAL: a run of two lists of actions, one after the other. -/
theorem run_append (w : Loop σ) (as bs : List Action) :
    w.run exec (as ++ bs) = (w.run exec as).run exec bs :=
  List.foldl_append _ _ _ _

/-- INTERNAL: with no entry queued, serving changes nothing. -/
theorem run_serves_of_ready_nil {w : Loop σ} (hr : w.ready = []) (n : Nat) :
    w.run exec (List.replicate n .serve) = w := by
  induction n with
  | zero => rfl
  | succ n ih => rw [List.replicate_succ, run_cons, show w.step exec .serve = w by rw [step, hr], ih]

/-- INTERNAL: waking an entry that is not queued appends it. -/
theorem wake_of_not_mem {w : Loop σ} {e : Ready} (he : e ∉ w.ready) :
    w.wake e = { w with ready := w.ready ++ [e] } :=
  if_neg he

/-- INTERNAL: waking a queued entry changes nothing. -/
theorem wake_of_mem {w : Loop σ} {e : Ready} (he : e ∈ w.ready) : w.wake e = w :=
  if_pos he

/-- INTERNAL: an empty segment changes nothing. -/
theorem step_send_nil (w : Loop σ) (fd : Nat) : w.step exec (.send fd []) = w := by
  rw [step]; exact if_pos rfl

section Known

variable {w : Loop σ} {fd : Nat} {s : Socket}

/-- INTERNAL: polling a known socket queues it when it reports an event. -/
theorem repoll_of_lookup (hs : w.sockets.lookup fd = some s) :
    w.repoll fd = if s.events.any then w.wake (.client fd) else w := by
  simp only [repoll, hs]

/-- INTERNAL: `EPOLL_CTL_MOD` on a known socket. -/
theorem modify_of_lookup (hs : w.sockets.lookup fd = some s) (out : Bool) :
    w.modify fd out =
      { w with sockets := updateAt fd (fun _ => { s with wantsWrite := out }) w.sockets }.repoll fd := by
  rw [modify, updateAt_const hs]

/-- INTERNAL: a segment arriving in a registered socket: its bytes are appended, and its entry is
queued. -/
theorem step_send_of_lookup (hs : w.sockets.lookup fd = some s) {bytes : Bytes} (hb : bytes ≠ []) :
    w.step exec (.send fd bytes) =
      { w with sockets := updateAt fd (fun _ => { s with unread := s.unread ++ bytes }) w.sockets }.wake
        (.client fd) := by
  simp only [step, if_neg hb, updateSocket, hs, Option.isSome_some, if_true]
  rw [updateAt_const hs]

/-- INTERNAL: the client of a registered socket acknowledging `n` bytes: the room grows, and the
entry is queued when `EPOLLOUT` is registered and the send buffer was full. -/
theorem step_drain_of_lookup (hs : w.sockets.lookup fd = some s) (n : Nat) :
    w.step exec (.drain fd n) =
      if s.wantsWrite ∧ s.room = 0 ∧ 0 < n then
        { w with sockets := updateAt fd (fun _ => { s with room := s.room + n }) w.sockets }.wake
          (.client fd)
      else { w with sockets := updateAt fd (fun _ => { s with room := s.room + n }) w.sockets } := by
  simp only [step, updateSocket, hs, Option.isSome_some, if_true]
  rw [updateAt_const hs]

end Known

/-! ## One client's exchange, with the rest of the loop as it is -/

/-- The loop `w` with the server state, the connection and socket of `fd`, and epoll's ready list
replaced: the states one client's exchange passes through, with every other connection as in
`w`. -/
def focus (w : Loop σ) (fd : Nat) (srv : σ) (c : Connection) (s : Socket) (ready : List Ready) :
    Loop σ :=
  { w with srv := srv, conns := updateAt fd (fun _ => c) w.conns,
           sockets := updateAt fd (fun _ => s) w.sockets, ready := ready }

section Focus

variable {w : Loop σ} {fd : Nat} {c₀ : Connection} {s₀ : Socket} {srv srv' : σ} {c c' : Connection}
  {s s' : Socket} {r r' : List Ready}

/-- INTERNAL: replacing twice is replacing once. -/
@[simp] theorem focus_focus :
    focus (focus w fd srv c s r) fd srv' c' s' r' = focus w fd srv' c' s' r' := by
  simp only [focus, updateAt_updateAt]

/-- INTERNAL: the loop with another ready list is a focus of it. -/
theorem focus_self_ready (hc : w.conns.lookup fd = some c₀) (hs : w.sockets.lookup fd = some s₀)
    (r : List Ready) : focus w fd w.srv c₀ s₀ r = { w with ready := r } := by
  simp only [focus, updateAt_of_lookup (f := fun _ => c₀) hc rfl,
    updateAt_of_lookup (f := fun _ => s₀) hs rfl]

/-- INTERNAL: the loop is its own focus. -/
theorem focus_self (hc : w.conns.lookup fd = some c₀) (hs : w.sockets.lookup fd = some s₀) :
    focus w fd w.srv c₀ s₀ w.ready = w :=
  focus_self_ready hc hs w.ready

/-- INTERNAL: the focused loop's ready list. -/
@[simp] theorem focus_get_ready : (focus w fd srv c s r).ready = r := rfl

/-- INTERNAL: the focused loop's server state. -/
@[simp] theorem focus_get_srv : (focus w fd srv c s r).srv = srv := rfl

/-- INTERNAL: the focused connection. -/
theorem focus_conns_lookup (hc : w.conns.lookup fd = some c₀) :
    (focus w fd srv c s r).conns.lookup fd = some c :=
  lookup_updateAt_of_lookup hc

/-- INTERNAL: the focused socket. -/
theorem focus_sockets_lookup (hs : w.sockets.lookup fd = some s₀) :
    (focus w fd srv c s r).sockets.lookup fd = some s :=
  lookup_updateAt_of_lookup hs

/-- INTERNAL: a new ready list. -/
theorem focus_ready : ({ focus w fd srv c s r with ready := r' } : Loop σ) = focus w fd srv c s r' := rfl

/-- INTERNAL: what the read branch of `handle_event` writes back, in focus. -/
theorem focus_update_srv (f : Socket → Socket) (g : Connection → Connection) :
    ({ focus w fd srv c s r with sockets := updateAt fd f (focus w fd srv c s r).sockets,
                                 conns := updateAt fd g (focus w fd srv c s r).conns, srv := srv' } :
      Loop σ) = focus w fd srv' (g c) (f s) r := by
  simp only [focus, updateAt_updateAt]

/-- INTERNAL: what the write branch of `handle_event` writes back, in focus. -/
theorem focus_update (f : Socket → Socket) (g : Connection → Connection) :
    ({ focus w fd srv c s r with conns := updateAt fd g (focus w fd srv c s r).conns,
                                 sockets := updateAt fd f (focus w fd srv c s r).sockets } : Loop σ) =
      focus w fd srv (g c) (f s) r := by
  simp only [focus, updateAt_updateAt]

variable (hc : w.conns.lookup fd = some c₀) (hs : w.sockets.lookup fd = some s₀)
include hs

/-- INTERNAL: a segment arriving in the focused socket while its entry is not queued. -/
theorem focus_send {bytes : Bytes} (hb : bytes ≠ []) (hr : .client fd ∉ r) :
    (focus w fd srv c s r).step exec (.send fd bytes) =
      focus w fd srv c { s with unread := s.unread ++ bytes } (r ++ [.client fd]) := by
  rw [step_send_of_lookup exec (lookup_updateAt_of_lookup hs) hb, wake_of_not_mem hr]
  simp only [focus, updateAt_updateAt]

/-- INTERNAL: a segment arriving in the focused socket while its entry is queued. -/
theorem focus_send_queued {bytes : Bytes} (hb : bytes ≠ []) (hr : .client fd ∈ r) :
    (focus w fd srv c s r).step exec (.send fd bytes) =
      focus w fd srv c { s with unread := s.unread ++ bytes } r := by
  rw [step_send_of_lookup exec (lookup_updateAt_of_lookup hs) hb, wake_of_mem hr]
  simp only [focus, updateAt_updateAt]

/-- INTERNAL: the client of the focused socket acknowledging `n` bytes. -/
theorem focus_drain (n : Nat) :
    (focus w fd srv c s r).step exec (.drain fd n) =
      if s.wantsWrite ∧ s.room = 0 ∧ 0 < n then
        (focus w fd srv c { s with room := s.room + n } r).wake (.client fd)
      else focus w fd srv c { s with room := s.room + n } r := by
  rw [step_drain_of_lookup exec (lookup_updateAt_of_lookup hs)]
  simp only [focus, updateAt_updateAt]

/-- INTERNAL: `epoll_wait` takes the focused socket's entry when it reports an event. -/
theorem focus_serve (hany : s.events.any = true) :
    (focus w fd srv c s (.client fd :: r)).step exec .serve =
      (focus w fd srv c s r).handleEvent exec fd s.events :=
  step_serve_client exec _ rfl (lookup_updateAt_of_lookup hs) hany

/-- INTERNAL: `EPOLL_CTL_MOD` on the focused socket. -/
theorem focus_modify (out : Bool) :
    (focus w fd srv c s r).modify fd out =
      if ({ s with wantsWrite := out } : Socket).events.any then
        (focus w fd srv c { s with wantsWrite := out } r).wake (.client fd)
      else focus w fd srv c { s with wantsWrite := out } r := by
  rw [modify_of_lookup (lookup_updateAt_of_lookup hs),
    repoll_of_lookup (lookup_updateAt_of_lookup (lookup_updateAt_of_lookup hs))]
  simp only [focus, updateAt_updateAt]

/-- INTERNAL: segments arriving in the focused socket while its entry is queued: their bytes are
appended, and the entry is not queued twice. -/
theorem focus_sends_queued (hr : .client fd ∈ r) :
    ∀ (segs : List Bytes) {s : Socket},
      (focus w fd srv c s r).run exec (segs.map (.send fd)) =
        focus w fd srv c { s with unread := s.unread ++ segs.flatten } r
  | [], s => by rw [List.map_nil, run_nil, List.flatten_nil, List.append_nil]
  | seg :: segs, s => by
    rw [List.map_cons, run_cons]
    by_cases hseg : seg = []
    · subst hseg
      rw [step_send_nil, focus_sends_queued hr segs]
      simp
    · rw [focus_send_queued exec hs hseg hr, focus_sends_queued hr segs]
      simp [List.append_assoc]

end Focus

/-! ## The events of one request -/

/-- INTERNAL: `handle_read` on an idle connection of one whole command executes it once and
queues its response, with nothing left in the buffer. -/
theorem handleRead_command (srv : σ) {cmd : Bytes × List Bytes} (hfit : Fits cmd)
    (hsize : (encodeCommand cmd.1 cmd.2).length ≤ maxReadSize) :
    Connection.init.handleRead exec srv (.bytes (encodeCommand cmd.1 cmd.2)) =
      (true, ⟨.connected, [], [(execCommand exec srv cmd).1]⟩, (execCommand exec srv cmd).2) := by
  obtain ⟨b, bs, hb⟩ := List.exists_cons_of_ne_nil
    (show encodeCommand cmd.1 cmd.2 ≠ [] by simp [encodeCommand])
  have hguard : ¬ maxInputBufferSize < ([] : Bytes).length + (b :: bs).length := by
    rw [← hb]; simp only [List.length_nil, maxInputBufferSize, maxReadSize] at hsize ⊢; omega
  simp only [Connection.handleRead, Connection.init, ne_eq, not_true_eq_false, if_false, hb]
  rw [if_neg hguard, Connection.processCommands_session exec _ srv (by simpa using hfit) rfl
    (show _ = Connection.encodeCommands [cmd] by simp [hb])]
  rfl

/-- INTERNAL: `handle_read` on an idle connection of the first bytes of a command, short of all
of it: they wait in the buffer, and nothing runs. -/
theorem handleRead_part (srv : σ) {cmd : Bytes × List Bytes} (hfit : Fits cmd) {part : Bytes}
    (hne : part ≠ []) (hpre : part <+: encodeCommand cmd.1 cmd.2)
    (hlt : part.length < (encodeCommand cmd.1 cmd.2).length) (hsize : part.length ≤ maxReadSize) :
    Connection.init.handleRead exec srv (.bytes part) = (true, ⟨.connected, part, []⟩, srv) := by
  obtain ⟨b, bs, rfl⟩ := List.exists_cons_of_ne_nil hne
  have hguard : ¬ maxInputBufferSize < ([] : Bytes).length + (b :: bs).length := by
    simp only [List.length_nil, maxInputBufferSize, maxReadSize] at hsize ⊢; omega
  simp only [Connection.handleRead, Connection.init, ne_eq, not_true_eq_false, if_false]
  rw [if_neg hguard, Connection.processCommands,
    Connection.processLoop_pending exec _ _ _ hfit hpre hlt, List.nil_append]

/-- INTERNAL: `handle_write` after a `send` that took part of the front message only: the rest
stays at the front of the queue. -/
theorem handleWrite_part {c : Connection} {message : Bytes} {rest : List Bytes} {n : Nat}
    (hc : c.state = .connected) (hq : c.outputQueue = message :: rest) (hn : 0 < n)
    (hlt : n < message.length) :
    c.handleWrite (.sent n) = (true, { c with outputQueue := message.drop n :: rest }) := by
  obtain ⟨k, rfl⟩ : ∃ k, n = k + 1 := ⟨n - 1, by omega⟩
  simp [Connection.handleWrite, hc, hq, Nat.ne_of_lt hlt]

section Events

variable {w : Loop σ} {fd : Nat} {c₀ : Connection} {s₀ : Socket} {srv : σ} {r : List Ready}
  (hc : w.conns.lookup fd = some c₀) (hs : w.sockets.lookup fd = some s₀)
include hc hs

/-- INTERNAL: the `EPOLLIN` event of a whole command on the focused connection, with nothing
buffered or queued: the command runs, its reply is queued, and `EPOLLOUT` is registered, which
queues the socket again when the send buffer has room or the client's `FIN` has arrived. -/
theorem focus_command {cmd : Bytes × List Bytes} (hfit : Fits cmd)
    (hsize : (encodeCommand cmd.1 cmd.2).length ≤ maxReadSize) {eof : Bool} {room : Nat}
    {delivered : Bytes} (hr : .client fd ∉ r) :
    (focus w fd srv Connection.init ⟨encodeCommand cmd.1 cmd.2, eof, false, room, false, delivered⟩ r).handleEvent
        exec fd ⟨true, false, false⟩ =
      focus w fd (execCommand exec srv cmd).2 ⟨.connected, [], [(execCommand exec srv cmd).1]⟩
        ⟨[], eof, false, room, true, delivered⟩
        (if eof = true ∨ 0 < room then r ++ [.client fd] else r) := by
  have hread := handleRead_command exec srv hfit hsize
  rw [← List.take_of_length_le hsize] at hread
  rw [handleEvent_read exec
    (focus w fd srv Connection.init ⟨encodeCommand cmd.1 cmd.2, eof, false, room, false, delivered⟩ r) fd
    (focus_conns_lookup hc) (focus_sockets_lookup hs) (by simp [encodeCommand]) hread]
  dsimp only
  rw [if_pos (show Connection.hasPendingWrites ⟨.connected, [], [_]⟩ = true from rfl), focus_update_srv,
    focus_modify hs]
  simp only [List.drop_eq_nil_of_le hsize, Socket.events, List.isEmpty_nil, Bool.not_true,
    Bool.false_or, Bool.true_and, Flags.any, Bool.or_false, Bool.or_eq_true, decide_eq_true_eq]
  by_cases hw : eof = true ∨ 0 < room
  · rw [if_pos hw, if_pos hw, wake_of_not_mem hr]; rfl
  · rw [if_neg hw, if_neg hw]

/-- INTERNAL: the `EPOLLOUT` event of the focused connection with one reply queued, on a socket
with room for all of it: `send` takes the reply, and `EPOLLOUT` is dropped without queueing the
socket again. -/
theorem focus_reply {reply delivered : Bytes} {room : Nat} (hm : reply ≠ [])
    (hle : reply.length ≤ room) :
    (focus w fd srv ⟨.connected, [], [reply]⟩ ⟨[], false, false, room, true, delivered⟩ r).handleEvent
        exec fd ⟨false, true, false⟩ =
      focus w fd srv Connection.init ⟨[], false, false, room - reply.length, false, delivered ++ reply⟩ r := by
  rw [handleEvent_write exec
    (focus w fd srv ⟨.connected, [], [reply]⟩ ⟨[], false, false, room, true, delivered⟩ r) fd
    (focus_conns_lookup hc) (focus_sockets_lookup hs) rfl rfl hm hle]
  dsimp only
  rw [if_pos rfl, focus_update, focus_modify hs]
  simp only [Socket.events, List.isEmpty_nil, Bool.not_true, Bool.or_false, Bool.false_and,
    Flags.any, Bool.false_eq_true, if_false]
  rfl

/-- INTERNAL: the `EPOLLOUT` event of the focused connection with one reply queued, on a socket
with room for part of it only: `send` fills the send buffer, and the rest of the reply stays
queued with `EPOLLOUT` registered. -/
theorem focus_reply_part {reply delivered : Bytes} {room : Nat} (hroom : 0 < room)
    (hlt : room < reply.length) :
    (focus w fd srv ⟨.connected, [], [reply]⟩ ⟨[], false, false, room, true, delivered⟩ r).handleEvent
        exec fd ⟨false, true, false⟩ =
      focus w fd srv ⟨.connected, [], [reply.drop room]⟩
        ⟨[], false, false, 0, true, delivered ++ reply.take room⟩ r := by
  have hsend : Socket.sendResult ⟨[], false, false, room, true, delivered⟩ reply = .sent room := by
    simp only [Socket.sendResult, Nat.pos_iff_ne_zero.1 hroom, if_false, Nat.min_eq_left hlt.le]
  simp only [handleEvent, focus_conns_lookup hc, focus_sockets_lookup hs, Bool.false_eq_true, if_false,
    and_self, if_true]
  rw [writeEvent]
  dsimp only
  rw [List.headD_cons, hsend, handleWrite_part rfl rfl hroom hlt, if_pos rfl,
    if_pos (show Connection.hasPendingWrites ⟨.connected, [], [reply.drop room]⟩ = true from rfl),
    focus_update]
  simp [ConnWorld.accepted, List.length_take, Nat.min_eq_left hlt.le]

/-- INTERNAL: the `EPOLLIN` event of a command longer than `MAX_READ_SIZE`, all of it in the
focused socket, on a connection with nothing buffered or queued: `recv` moves the first
`MAX_READ_SIZE` bytes to the buffer, the rest stays in the socket, and nothing runs. -/
theorem focus_long {cmd : Bytes × List Bytes} (hfit : Fits cmd)
    (hlong : maxReadSize < (encodeCommand cmd.1 cmd.2).length) {room : Nat} {delivered : Bytes} :
    (focus w fd srv Connection.init ⟨encodeCommand cmd.1 cmd.2, false, false, room, false, delivered⟩ r).handleEvent
        exec fd ⟨true, false, false⟩ =
      focus w fd srv ⟨.connected, (encodeCommand cmd.1 cmd.2).take maxReadSize, []⟩
        ⟨(encodeCommand cmd.1 cmd.2).drop maxReadSize, false, false, room, false, delivered⟩ r := by
  have hlen : ((encodeCommand cmd.1 cmd.2).take maxReadSize).length = maxReadSize := by
    rw [List.length_take]; omega
  rw [handleEvent_read exec
    (focus w fd srv Connection.init ⟨encodeCommand cmd.1 cmd.2, false, false, room, false, delivered⟩ r) fd
    (focus_conns_lookup hc) (focus_sockets_lookup hs) (by simp [encodeCommand])
    (handleRead_part exec srv hfit (List.ne_nil_of_length_pos (by rw [hlen]; decide))
      (List.take_prefix _ _)
      (show ((encodeCommand cmd.1 cmd.2).take maxReadSize).length <
        (encodeCommand cmd.1 cmd.2).length by omega) hlen.le)]
  dsimp only
  rw [if_neg (show ¬ Connection.hasPendingWrites ⟨.connected, _, []⟩ = true from
    Bool.false_ne_true), focus_update_srv]

/-- INTERNAL: the `EPOLLIN` event of an open connection whose socket has nothing unread and the
client's `FIN`: `recv` returns `0`, and `handle_read` closes the connection, whatever is still
queued on it. -/
theorem focus_eof {c : Connection} (hconn : c.state = .connected) {room : Nat} {out : Bool}
    {delivered : Bytes} (writable : Bool) :
    (focus w fd srv c ⟨[], true, false, room, out, delivered⟩ r).handleEvent exec fd
        ⟨true, writable, false⟩ =
      { w with srv := srv, conns := eraseAt fd w.conns, sockets := eraseAt fd w.sockets,
               ready := r.filter (· ≠ .client fd) } := by
  simp only [handleEvent, focus_conns_lookup hc, focus_sockets_lookup hs]
  simp only [readEvent, Socket.recvResult, List.isEmpty_nil, if_true, Connection.handleRead, hconn,
    ne_eq, not_true_eq_false, if_false, Bool.false_eq_true, false_and, closeConnection, focus,
    eraseAt_updateAt]

end Events

/-- The rest of an exchange after the command's `EPOLLIN` event, for a reply of `len` bytes
through a send buffer of `room` bytes: each `EPOLLOUT` event sends a piece, and the client
acknowledges it. A piece shorter than the rest fills the buffer, and its acknowledgement wakes
the socket for the next; `fuel` bounds the number of pieces. -/
def replyRounds (fd room : Nat) : Nat → Nat → List Action
  | 0, _ => []
  | fuel + 1, len =>
    if len ≤ room then [.serve, .drain fd len]
    else .serve :: .drain fd room :: replyRounds fd room fuel (len - room)

section Runs

variable {w : Loop σ} {fd : Nat} {c₀ : Connection} {s₀ : Socket}
  (hc : w.conns.lookup fd = some c₀) (hs : w.sockets.lookup fd = some s₀)
include hc hs

/-- A reply queued with `EPOLLOUT` registered and the socket queued, over a send buffer with
`room` bytes free: the rounds of pieces and acknowledgements send the whole reply, leave nothing
queued on the connection and the send buffer free, and queue no entry. -/
theorem run_replyRounds {room : Nat} (hroom : 0 < room) :
    ∀ (fuel : Nat) {srv : σ} {rest delivered : Bytes}, rest ≠ [] → rest.length ≤ fuel →
      (focus w fd srv ⟨.connected, [], [rest]⟩ ⟨[], false, false, room, true, delivered⟩
          [.client fd]).run exec (replyRounds fd room fuel rest.length) =
        focus w fd srv Connection.init ⟨[], false, false, room, false, delivered ++ rest⟩ []
  | 0, _, rest, _, hne, hlen => absurd (List.eq_nil_of_length_eq_zero (by omega)) hne
  | fuel + 1, srv, rest, delivered, hne, hlen => by
    have hany : Socket.events ⟨[], false, false, room, true, delivered⟩ = ⟨false, true, false⟩ := by
      simp [Socket.events, hroom]
    rw [replyRounds]
    split
    · rename_i hle
      rw [run_cons, focus_serve exec hs (by rw [hany]; rfl), hany, focus_reply exec hc hs hne hle,
        run_cons, focus_drain exec hs]
      simp only [Bool.false_eq_true, false_and, if_false, run_nil, Nat.sub_add_cancel hle]
    · rename_i hgt
      have hlt : room < rest.length := by omega
      rw [run_cons, focus_serve exec hs (by rw [hany]; rfl), hany, focus_reply_part exec hc hs hroom hlt,
        run_cons, focus_drain exec hs]
      simp only [true_and, Nat.zero_add, hroom, and_self, if_true]
      rw [wake_of_not_mem (List.not_mem_nil _), focus_ready, focus_get_ready, List.nil_append,
        ← List.length_drop,
        run_replyRounds hroom fuel (by simpa using hlt) (by rw [List.length_drop]; omega)]
      simp only [List.append_assoc, List.take_append_drop]

omit hc in
/-- INTERNAL: at the focused idle connection, segments whose bytes are not all empty arrive: the
socket holds their bytes, and its entry is queued once. -/
theorem focus_sends {srv : σ} {room : Nat} {delivered : Bytes} :
    ∀ segs : List Bytes, segs.flatten ≠ [] →
      (focus w fd srv Connection.init ⟨[], false, false, room, false, delivered⟩ []).run exec
          (segs.map (.send fd)) =
        focus w fd srv Connection.init ⟨segs.flatten, false, false, room, false, delivered⟩ [.client fd]
  | [], hne => absurd rfl hne
  | seg :: segs, hne => by
    rw [List.map_cons, run_cons]
    by_cases hseg : seg = []
    · subst hseg
      rw [step_send_nil]
      exact focus_sends segs (by simpa using hne)
    · rw [focus_send exec hs hseg (List.not_mem_nil _), focus_sends_queued exec hs (by simp) segs]
      simp

/-- From the focused idle connection with a free send buffer, a command of at most
`MAX_READ_SIZE` bytes that fits the framer, and whose reply is not empty, arrives in one segment:
after its `EPOLLIN` event and the rounds of its reply, the server has executed it once, the client
has been sent its whole reply, and the connection is idle again. -/
theorem focus_round_trip {srv : σ} {room : Nat} {delivered : Bytes} (hroom : 0 < room)
    {cmd : Bytes × List Bytes} (hfit : Fits cmd)
    (hsize : (encodeCommand cmd.1 cmd.2).length ≤ maxReadSize)
    (hreply : (execCommand exec srv cmd).1 ≠ []) :
    (focus w fd srv Connection.init ⟨[], false, false, room, false, delivered⟩ []).run exec
        (.send fd (encodeCommand cmd.1 cmd.2) :: .serve ::
          replyRounds fd room (execCommand exec srv cmd).1.length (execCommand exec srv cmd).1.length) =
      focus w fd (execCommand exec srv cmd).2 Connection.init
        ⟨[], false, false, room, false, delivered ++ (execCommand exec srv cmd).1⟩ [] := by
  have hcmd : encodeCommand cmd.1 cmd.2 ≠ [] := by simp [encodeCommand]
  have hin : Socket.events ⟨encodeCommand cmd.1 cmd.2, false, false, room, false, delivered⟩ =
      ⟨true, false, false⟩ := by
    simp [Socket.events, List.isEmpty_eq_false.2 hcmd]
  rw [run_cons, focus_send exec hs hcmd (List.not_mem_nil _), run_cons]
  simp only [List.nil_append]
  rw [focus_serve exec hs (by rw [hin]; rfl), hin,
    focus_command exec hc hs hfit hsize (List.not_mem_nil _), if_pos (Or.inr hroom), List.nil_append,
    run_replyRounds exec hc hs hroom _ hreply le_rfl]

end Runs

/-! ## A session of requests, one at a time -/

/-- The actions of a client that sends its commands one at a time, each only when the whole reply
to the one before has come, as `Client::execute` does, and acknowledges each piece of a reply as
it arrives; and of the server serving the events they cause. How `send` cuts a reply into pieces
depends on its length, so the actions follow the server's state `srv`. -/
def oneAtATime (fd room : Nat) : σ → List (Bytes × List Bytes) → List Action
  | _, [] => []
  | srv, cmd :: cmds =>
    (.send fd (encodeCommand cmd.1 cmd.2) :: .serve ::
      replyRounds fd room (execCommand exec srv cmd).1.length (execCommand exec srv cmd).1.length) ++
      oneAtATime fd room (execCommand exec srv cmd).2 cmds

/-- INTERNAL: a session of commands sent one at a time, at the focused idle connection. -/
theorem focus_run_oneAtATime {w : Loop σ} {fd : Nat} {c₀ : Connection} {s₀ : Socket}
    (hc : w.conns.lookup fd = some c₀) (hs : w.sockets.lookup fd = some s₀)
    (hreply : ∀ srv command args, (exec srv command args).1 ≠ []) {room : Nat} (hroom : 0 < room) :
    ∀ (cmds : List (Bytes × List Bytes)) {srv : σ} {delivered : Bytes},
      (∀ cmd ∈ cmds, Fits cmd ∧ (encodeCommand cmd.1 cmd.2).length ≤ maxReadSize) →
      (focus w fd srv Connection.init ⟨[], false, false, room, false, delivered⟩ []).run exec
          (oneAtATime exec fd room srv cmds) =
        focus w fd (runCommands exec srv cmds).2 Connection.init
          ⟨[], false, false, room, false, delivered ++ (runCommands exec srv cmds).1.flatten⟩ []
  | [], _, _, _ => by simp [oneAtATime, runCommands, run_nil]
  | cmd :: cmds, srv, delivered, hcmds => by
    have hcmd := hcmds cmd (List.mem_cons_self _ _)
    rw [oneAtATime, run_append, focus_round_trip exec hc hs hroom hcmd.1 hcmd.2 (hreply _ _ _),
      focus_run_oneAtATime hc hs hreply hroom cmds fun c hm => hcmds c (List.mem_cons_of_mem _ hm)]
    simp only [runCommands, List.flatten_cons, List.append_assoc]
    rfl

/-- From an idle connection with a free send buffer, whatever other connections are open, a
session of commands sent one at a time: the server executes each once, in order, and the client
is sent their replies, in order; the connection is idle again. -/
theorem Idle.run_oneAtATime (hreply : ∀ srv command args, (exec srv command args).1 ≠ [])
    {w : Loop σ} {fd room : Nat} {delivered : Bytes} (h : Idle w fd room delivered) (hroom : 0 < room)
    (cmds : List (Bytes × List Bytes))
    (hcmds : ∀ cmd ∈ cmds, Fits cmd ∧ (encodeCommand cmd.1 cmd.2).length ≤ maxReadSize) :
    w.run exec (oneAtATime exec fd room w.srv cmds) =
      { w with srv := (runCommands exec w.srv cmds).2,
               sockets := updateAt fd
                 (fun _ => ⟨[], false, false, room, false,
                   delivered ++ (runCommands exec w.srv cmds).1.flatten⟩)
                 w.sockets } := by
  conv_lhs => rw [← focus_self h.conn h.socket, h.ready, focus_get_srv]
  rw [focus_run_oneAtATime exec h.conn h.socket hreply hroom cmds hcmds]
  simp only [focus, updateAt_of_lookup (f := fun _ => Connection.init) h.conn rfl, ← h.ready]

/-- INTERNAL: a client connecting to a fresh server with room for it is accepted, and its
connection is idle with the whole send buffer free. -/
theorem run_connect_init (srv : σ) {maxConnections : Nat} (hroom : 0 < maxConnections)
    (sendBuffer fd : Nat) :
    (init srv maxConnections sendBuffer).run exec [.connect fd, .serve] =
      ⟨srv, [(fd, Connection.init)], [(fd, Socket.fresh sendBuffer)], [], [], maxConnections,
        sendBuffer⟩ := by
  simp [run, step, acceptConnection, init, eraseAt, wake, repoll, Socket.fresh, Socket.events,
    Flags.any, Nat.not_le.2 hroom]

/-- A client connects to a freshly started server with room for it, and then sends its commands
one at a time, each only when the whole reply to the one before has come, as `Client::execute`
does, acknowledging each piece of a reply as it arrives. Each command fits the framer and
`MAX_READ_SIZE`, `execute_command` never answers with nothing, and the send buffer has room for at
least one byte. Then every reply goes out in the pieces the send buffer takes, each sent by the
`EPOLLOUT` event the acknowledgement of the one before causes. At the end the server has executed
the commands once each, in order; the client has been sent exactly their replies, in order; and
nothing is left anywhere: no entry queued, nothing buffered, queued or unread, the send buffer
free, and `EPOLLOUT` not registered. -/
theorem waiting_client_gets_every_reply (srv : σ) (maxConnections sendBuffer fd : Nat)
    (hroom : 0 < maxConnections) (hbuf : 0 < sendBuffer) (cmds : List (Bytes × List Bytes))
    (hcmds : ∀ cmd ∈ cmds, Fits cmd ∧ (encodeCommand cmd.1 cmd.2).length ≤ maxReadSize)
    (hreply : ∀ srv command args, (exec srv command args).1 ≠ []) :
    (init srv maxConnections sendBuffer).run exec
        (.connect fd :: .serve :: oneAtATime exec fd sendBuffer srv cmds) =
      ⟨(runCommands exec srv cmds).2, [(fd, Connection.init)],
        [(fd, ⟨[], false, false, sendBuffer, false, (runCommands exec srv cmds).1.flatten⟩)], [], [],
        maxConnections, sendBuffer⟩ := by
  rw [show Action.connect fd :: .serve :: oneAtATime exec fd sendBuffer srv cmds =
      [.connect fd, .serve] ++ oneAtATime exec fd sendBuffer srv cmds from rfl,
    run_append, run_connect_init exec srv hroom sendBuffer fd,
    Idle.run_oneAtATime exec hreply ⟨rfl, lookup_single_self, lookup_single_self⟩ hbuf cmds hcmds]
  simp [updateAt]

/-- A `SET` and then a `GET` of the same key, each sent when the whole reply before it has come,
on a connection to a fresh server over the storage engine whose sockets have a send buffer of
`4` bytes, so that `+OK` goes out in two pieces: both are answered, in order, and nothing is left
pending. -/
theorem set_then_get_answered_in_turn :
    let exec := Server.executeCommand (HashTable.ops List.length) 0
    let cmds := [(ascii "SET", [ascii "k", ascii "v"]), (ascii "GET", [ascii "k"])]
    0 < 8 ∧ 0 < 4 ∧ (∀ cmd ∈ cmds, Fits cmd ∧ (encodeCommand cmd.1 cmd.2).length ≤ maxReadSize) ∧
      (∀ eng command args, (exec eng command args).1 ≠ []) ∧
      (init (StorageEngine.init 64) 8 4).run exec
          (.connect 5 :: .serve :: oneAtATime exec 5 4 (StorageEngine.init 64) cmds) =
        ⟨(runCommands exec (StorageEngine.init 64) cmds).2, [(5, Connection.init)],
          [(5, ⟨[], false, false, 4, false, (runCommands exec (StorageEngine.init 64) cmds).1.flatten⟩)],
          [], [], 8, 4⟩ :=
  have hcmds := by decide
  have hreply := Server.executeCommand_ne_nil (HashTable.ops List.length) 0
  ⟨by decide, by decide, hcmds, hreply,
    waiting_client_gets_every_reply _ _ 8 4 5 (by decide) (by decide) _ hcmds hreply⟩

/-! ## A request longer than `MAX_READ_SIZE` -/

/-- A command that fits the framer but is longer than `MAX_READ_SIZE` arrives in any number of
segments at an idle connection, all of them before the server takes the socket's entry: they
wake the socket once. The one `EPOLLIN` event moves the first `MAX_READ_SIZE` bytes to the
buffer, the rest stays in the socket, and no entry is left. However often the server polls after
that, nothing changes: the command never runs, and the client waits for a reply that does not
come. -/
theorem long_request_stalls {w : Loop σ} {fd room : Nat} {delivered : Bytes}
    (h : Idle w fd room delivered) {cmd : Bytes × List Bytes} (hfit : Fits cmd)
    (hlong : maxReadSize < (encodeCommand cmd.1 cmd.2).length) (segs : List Bytes)
    (hsegs : segs.flatten = encodeCommand cmd.1 cmd.2) (n : Nat) :
    w.run exec (segs.map (.send fd) ++ List.replicate (n + 1) .serve) =
      { w with conns := updateAt fd
                 (fun _ => ⟨.connected, (encodeCommand cmd.1 cmd.2).take maxReadSize, []⟩) w.conns,
               sockets := updateAt fd
                 (fun _ => ⟨(encodeCommand cmd.1 cmd.2).drop maxReadSize, false, false, room, false,
                   delivered⟩)
                 w.sockets } := by
  have hcmd : encodeCommand cmd.1 cmd.2 ≠ [] := by simp [encodeCommand]
  have hin : Socket.events ⟨encodeCommand cmd.1 cmd.2, false, false, room, false, delivered⟩ =
      ⟨true, false, false⟩ := by
    simp [Socket.events, List.isEmpty_eq_false.2 hcmd]
  conv_lhs => rw [← focus_self h.conn h.socket, h.ready]
  rw [run_append, focus_sends exec h.socket segs (hsegs ▸ hcmd), hsegs, List.replicate_succ,
    run_cons, focus_serve exec h.socket (by rw [hin]; rfl), hin, focus_long exec h.conn h.socket hfit hlong,
    run_serves_of_ready_nil exec rfl]
  simp only [focus, ← h.ready]

/-- A `SET` whose value is `MAX_READ_SIZE` bytes long arrives in two segments on a connection
just accepted by a fresh server, the second before the server reads the first: three polls
later it is still half read, and nothing has been answered. -/
theorem set_of_long_value_stalls :
    let exec := Server.executeCommand (HashTable.ops List.length) 0
    let cmd := (ascii "SET", [ascii "k", List.replicate maxReadSize 120])
    let segs := [(encodeCommand cmd.1 cmd.2).take 40000, (encodeCommand cmd.1 cmd.2).drop 40000]
    let w := (init (StorageEngine.init 1048576) 8 65536).run exec [.connect 5, .serve]
    Idle w 5 65536 [] ∧ Fits cmd ∧ maxReadSize < (encodeCommand cmd.1 cmd.2).length ∧
      segs.flatten = encodeCommand cmd.1 cmd.2 ∧
      w.run exec (segs.map (.send 5) ++ List.replicate 3 .serve) =
        { w with conns := updateAt 5
                   (fun _ => ⟨.connected, (encodeCommand cmd.1 cmd.2).take maxReadSize, []⟩) w.conns,
                 sockets := updateAt 5
                   (fun _ => ⟨(encodeCommand cmd.1 cmd.2).drop maxReadSize, false, false, 65536, false, []⟩)
                   w.sockets } :=
  have hidle : Idle ((init (StorageEngine.init 1048576) 8 65536).run
      (Server.executeCommand (HashTable.ops List.length) 0) [.connect 5, .serve]) 5 65536 [] := by
    rw [run_connect_init _ _ (by decide)]
    exact ⟨rfl, lookup_single_self, lookup_single_self⟩
  have hfit : Fits (ascii "SET", [ascii "k", List.replicate maxReadSize 120]) := by
    refine ⟨by decide, ?_⟩
    simp only [List.mem_cons, forall_eq_or_imp, List.length_replicate, List.not_mem_nil,
      false_implies, implies_true, and_true]
    decide
  have hlong : maxReadSize <
      (encodeCommand (ascii "SET") [ascii "k", List.replicate maxReadSize 120]).length := by
    simp only [encodeCommand, List.length_append, List.length_cons, List.map_cons, List.map_nil,
      List.flatten_cons, List.flatten_nil, Connection.length_encodeBulk, List.length_replicate]
    omega
  have hsegs : [(encodeCommand (ascii "SET") [ascii "k", List.replicate maxReadSize 120]).take 40000,
      (encodeCommand (ascii "SET") [ascii "k", List.replicate maxReadSize 120]).drop 40000].flatten =
      encodeCommand (ascii "SET") [ascii "k", List.replicate maxReadSize 120] := by
    simp only [List.flatten_cons, List.flatten_nil, List.append_nil, List.take_append_drop]
  ⟨hidle, hfit, hlong, hsegs, long_request_stalls _ hidle hfit hlong _ hsegs 2⟩

end Loop

end BlinkDb
