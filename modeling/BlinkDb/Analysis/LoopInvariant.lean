import BlinkDb.Model.Server
import BlinkDb.Analysis.HashTableMap

/-!
# The event loop's tables over every run

`Server` keeps `connections_`, a map from descriptors to connections, and epoll keeps the client
sockets. Every state a run of the loop reaches from `Loop.init` satisfies `Loop.Sound`:

* at most `max_connections_` connections are open: `accept_connection` compares before it adds,
  and every other step keeps or removes connections;
* there is one connection per descriptor;
* every connection's socket is open: the two tables gain and lose a descriptor together;
* every connection is `CONNECTED`. `handle_read` returns `false` whenever it leaves `CONNECTED`,
  `handle_write` never changes the state, and `handle_event` closes a connection at once when
  a handler returns `false`. So the `state_ != CONNECTED` branches of `handle_read`,
  `handle_write` and `add_response` are never taken on a connection the server holds;
* no connection buffers more than `MAX_INPUT_BUFFER_SIZE` bytes: `handle_read` refuses a chunk
  that would pass it, and the framing loop only removes bytes.

`Sound.step` is the step lemma, one case per action, and `run_sound` follows by induction over
the actions. Both hold for every executor, so for every storage engine behind
`execute_command`.
-/

set_option autoImplicit false

namespace BlinkDb

open HashTable (keys)

/-! ## The descriptor tables -/

section Tables

variable {α : Type} (fd : Nat)

/-- Changing an entry keeps the descriptors. -/
@[simp] theorem keys_updateAt (f : α → α) (l : List (Nat × α)) :
    keys (updateAt fd f l) = keys l := by
  induction l with
  | nil => rfl
  | cons p l ih =>
    obtain ⟨k, v⟩ := p
    unfold updateAt
    split <;> simp [ih]

/-- INTERNAL: changing an entry keeps the table's size. -/
theorem length_updateAt (f : α → α) (l : List (Nat × α)) : (updateAt fd f l).length = l.length := by
  rw [← List.length_map _ Prod.fst, ← List.length_map l Prod.fst]
  exact congrArg List.length (keys_updateAt fd f l)

/-- An entry after `updateAt` is an old one or the new value of `fd`. -/
theorem mem_updateAt {f : α → α} {l : List (Nat × α)} {p : Nat × α} (h : p ∈ updateAt fd f l) :
    p ∈ l ∨ ∃ v, p = (fd, f v) := by
  induction l with
  | nil => simp [updateAt] at h
  | cons q l ih =>
    obtain ⟨k, v⟩ := q
    unfold updateAt at h
    split at h
    · rcases List.mem_cons.1 h with rfl | h
      · exact .inr ⟨v, by simp [*]⟩
      · exact .inl (List.mem_cons_of_mem _ h)
    · rcases List.mem_cons.1 h with rfl | h
      · exact .inl (List.mem_cons_self _ _)
      · exact (ih h).imp_left (List.mem_cons_of_mem _)

/-- The descriptors after removing `fd` are the others. -/
theorem mem_keys_eraseAt {l : List (Nat × α)} {k : Nat} :
    k ∈ keys (eraseAt fd l) ↔ k ∈ keys l ∧ k ≠ fd := by
  simp [eraseAt, keys]

/-- INTERNAL: removing an entry keeps the other descriptors in order. -/
theorem keys_eraseAt_sublist (l : List (Nat × α)) : List.Sublist (keys (eraseAt fd l)) (keys l) :=
  (List.filter_sublist l).map _

end Tables

/-! ## What the handlers do to a connection -/

namespace Connection

variable {σ : Type} (exec : Executor σ)

/-- A connection the server may hold: `CONNECTED`, with at most `MAX_INPUT_BUFFER_SIZE` bytes
buffered. -/
structure Held (c : Connection) : Prop where
  connected : c.state = .connected
  buffered : c.inputBuffer.length ≤ maxInputBufferSize

/-- The framing loop keeps the state of the connection and only removes bytes from its
buffer. -/
theorem processLoop_conn : ∀ (fuel pos : Nat) (c : Connection) (srv : σ),
    (processLoop exec fuel pos c srv).2.1.state = c.state ∧
      (processLoop exec fuel pos c srv).2.1.inputBuffer.length ≤ c.inputBuffer.length
  | 0, _, _, _ => ⟨rfl, le_rfl⟩
  | fuel + 1, pos, c, srv => by
    rw [processLoop]
    split
    · exact ⟨rfl, le_rfl⟩
    split
    · split
      · exact ⟨rfl, le_rfl⟩
      split
      · exact ⟨rfl, le_rfl⟩
      split
      · exact ⟨rfl, le_rfl⟩
      split
      · exact ⟨rfl, le_rfl⟩
      · exact ⟨rfl, le_rfl⟩
      · refine ⟨(processLoop_conn fuel 0 _ _).1.trans (dispatch_state exec c srv _),
          (processLoop_conn fuel 0 _ _).2.trans ?_⟩
        simp only [List.length_drop, dispatch_inputBuffer]
        omega
    · exact processLoop_conn fuel (pos + 1) c srv

/-- When `handle_read` returns `true`, the connection is one the server may hold. -/
theorem handleRead_held {c : Connection} {srv : σ} {r : RecvResult}
    (h : (c.handleRead exec srv r).1 = true) (hbuf : c.inputBuffer.length ≤ maxInputBufferSize) :
    (c.handleRead exec srv r).2.1.Held := by
  by_cases hc : c.state = .connected
  · cases r with
    | error e =>
      rw [show (c.handleRead exec srv (.error e)).2.1 = c by simp [handleRead, hc]]
      exact ⟨hc, hbuf⟩
    | bytes b =>
      cases b with
      | nil => simp [handleRead, hc] at h
      | cons x xs =>
        simp only [handleRead, hc, ne_eq, not_true_eq_false, if_false, List.length_cons] at h ⊢
        by_cases hg : maxInputBufferSize < c.inputBuffer.length + (xs.length + 1)
        · simp [hg] at h
        · rw [if_neg hg, processCommands]
          refine ⟨(processLoop_conn exec _ _ _ _).1, (processLoop_conn exec _ _ _ _).2.trans ?_⟩
          simp only [List.length_append, List.length_cons]
          omega
  · simp [handleRead, hc] at h

/-- `handle_write` changes nothing but the output queue. -/
theorem handleWrite_eq (c : Connection) (r : SendResult) :
    (c.handleWrite r).2 = { c with outputQueue := (c.handleWrite r).2.outputQueue } := by
  unfold handleWrite
  split
  · rfl
  split
  · rfl
  split
  · rfl
  · split <;> rfl
  · rfl

/-- `handle_write` keeps a connection the server may hold. -/
theorem Held.handleWrite {c : Connection} (h : c.Held) (r : SendResult) : (c.handleWrite r).2.Held := by
  rw [handleWrite_eq]
  exact ⟨h.connected, h.buffered⟩

end Connection

/-! ## The invariant -/

namespace Loop

variable {σ : Type} (exec : Executor σ)

/-- The tables of a state that every run of a server with `max_connections_ = cap` reaches. -/
structure Sound (cap : Nat) (w : Loop σ) : Prop where
  /-- Nothing changes `max_connections_`. -/
  limit : w.maxConnections = cap
  /-- No more than `max_connections_` connections are open. -/
  bounded : w.conns.length ≤ cap
  /-- `connections_` holds one connection per descriptor. -/
  nodup : (keys w.conns).Nodup
  /-- Every connection's socket is open. -/
  socket : ∀ fd ∈ keys w.conns, fd ∈ keys w.sockets
  /-- Every connection is `CONNECTED`, with at most 10 MiB buffered. -/
  held : ∀ p ∈ w.conns, p.2.Held

/-! ### One step at a time -/

variable {cap : Nat} {w : Loop σ}

/-- A state with the same connections, socket descriptors and limit is sound. -/
theorem Sound.of_tables {w' : Loop σ} (h : w.Sound cap) (hc : w'.conns = w.conns)
    (hs : keys w'.sockets = keys w.sockets) (hm : w'.maxConnections = w.maxConnections) :
    w'.Sound cap :=
  ⟨hm.trans h.limit, hc ▸ h.bounded, hc ▸ h.nodup, hc ▸ hs ▸ h.socket, hc ▸ h.held⟩

/-- Replacing one connection by one the server may hold keeps the invariant. -/
theorem Sound.updateConn {w' : Loop σ} (h : w.Sound cap) (fd : Nat) {c : Connection}
    (hconn : c.Held) (hc : w'.conns = updateAt fd (fun _ => c) w.conns)
    (hs : keys w'.sockets = keys w.sockets) (hm : w'.maxConnections = w.maxConnections) :
    w'.Sound cap where
  limit := hm.trans h.limit
  bounded := by rw [hc, length_updateAt]; exact h.bounded
  nodup := by rw [hc, keys_updateAt]; exact h.nodup
  socket := by rw [hc, hs, keys_updateAt]; exact h.socket
  held p hp := by
    rw [hc] at hp
    rcases mem_updateAt fd hp with hp | ⟨_, rfl⟩
    · exact h.held p hp
    · exact hconn

/-- Changing what the sockets hold, not which are open, keeps the invariant. -/
theorem Sound.updateSocket (h : w.Sound cap) (fd : Nat) (f : Socket → Socket) :
    Sound cap { w with sockets := updateAt fd f w.sockets } :=
  h.of_tables rfl (keys_updateAt _ _ _) rfl

/-- A wake-up only queues an entry. -/
theorem Sound.wake (h : w.Sound cap) (e : Ready) : (w.wake e).Sound cap := by
  unfold Loop.wake; split
  · exact h
  · exact h.of_tables rfl rfl rfl

/-- So does polling a socket. -/
theorem Sound.repoll (h : w.Sound cap) (fd : Nat) : (w.repoll fd).Sound cap := by
  unfold Loop.repoll; split
  · split
    · exact h.wake _
    · exact h
  · exact h

/-- `EPOLL_CTL_MOD` keeps the invariant. -/
theorem Sound.modify (h : w.Sound cap) (fd : Nat) (out : Bool) : (w.modify fd out).Sound cap :=
  (h.updateSocket fd _).repoll fd

/-- Changing a socket that is open or waiting for `accept` keeps the invariant. -/
theorem Sound.updateSocketAt (h : w.Sound cap) (fd : Nat) (f : Socket → Socket) :
    (w.updateSocket fd f).Sound cap := by
  unfold Loop.updateSocket; split
  · exact h.updateSocket fd f
  · exact h.of_tables rfl rfl rfl

/-- `close_connection` keeps the invariant. -/
theorem Sound.closeConnection (h : w.Sound cap) (fd : Nat) : (w.closeConnection fd).Sound cap where
  limit := h.limit
  bounded := (List.length_filter_le _ _).trans h.bounded
  nodup := h.nodup.sublist (keys_eraseAt_sublist fd _)
  socket k hk := by
    obtain ⟨hk, hne⟩ := (mem_keys_eraseAt fd).1 hk
    exact (mem_keys_eraseAt fd).2 ⟨h.socket k hk, hne⟩
  held p hp := h.held p (List.mem_filter.1 hp).1

/-- `accept_connection` keeps the invariant: it compares with `max_connections_` before it adds,
and the new connection replaces whatever the tables held under its descriptor. -/
theorem Sound.acceptConnection (h : w.Sound cap) : w.acceptConnection.Sound cap := by
  unfold Loop.acceptConnection
  split
  · exact h
  · rename_i fd s rest _
    dsimp only
    have h₁ : Sound cap (if rest.isEmpty then { w with backlog := rest }
        else { w with backlog := rest }.wake .listen) := by
      split
      · exact h.of_tables rfl rfl rfl
      · refine Sound.wake ?_ _
        exact h.of_tables rfl rfl rfl
    generalize (if rest.isEmpty then { w with backlog := rest }
      else { w with backlog := rest }.wake .listen) = w₁ at h₁ ⊢
    split
    · exact h₁
    · rename_i hfull
      refine Sound.repoll ?_ fd
      refine ⟨h₁.limit, ?_, ?_, ?_, ?_⟩
      · have := List.length_filter_le (fun e : Nat × Connection => decide (e.1 ≠ fd)) w₁.conns
        simp only [eraseAt, List.length_append, List.length_singleton] at this ⊢
        have := h₁.limit
        omega
      · rw [keys, List.map_append, List.nodup_append]
        refine ⟨h₁.nodup.sublist (keys_eraseAt_sublist fd _), List.nodup_singleton _, ?_⟩
        simp only [List.map_singleton, List.disjoint_singleton]
        exact fun hm => ((mem_keys_eraseAt fd).1 hm).2 rfl
      · intro k hk
        rw [keys, List.map_append, List.mem_append] at hk ⊢
        rcases hk with hk | hk
        · obtain ⟨hk, hne⟩ := (mem_keys_eraseAt fd).1 hk
          exact .inl ((mem_keys_eraseAt fd).2 ⟨h₁.socket k hk, hne⟩)
        · exact .inr hk
      · intro p hp
        rcases List.mem_append.1 hp with hp | hp
        · exact h₁.held p (List.mem_filter.1 hp).1
        · rw [List.mem_singleton.1 hp]; exact ⟨rfl, Nat.zero_le _⟩

/-- The `EPOLLIN` branch keeps the invariant, given a connection the server may hold. -/
theorem Sound.readEvent (h : w.Sound cap) (fd : Nat) {conn : Connection} (s : Socket)
    (hconn : conn.Held) : (w.readEvent exec fd conn s).2.Sound cap := by
  unfold Loop.readEvent
  generalize s.recvResult = r
  dsimp only
  split
  · rename_i hread
    have hc := Connection.handleRead_held exec hread hconn.buffered
    split
    · refine Sound.modify ?_ fd true
      exact h.updateConn fd hc rfl (keys_updateAt _ _ _) rfl
    · exact h.updateConn fd hc rfl (keys_updateAt _ _ _) rfl
  · exact (h.updateSocket fd fun s => { s with unread := s.unread.drop maxReadSize }).closeConnection fd

/-- The `EPOLLOUT` branch keeps the invariant, given a connection the server may hold. -/
theorem Sound.writeEvent (h : w.Sound cap) (fd : Nat) {conn : Connection} (s : Socket)
    (hconn : conn.Held) : (w.writeEvent fd conn s).Sound cap := by
  unfold Loop.writeEvent
  generalize s.sendResult (conn.outputQueue.headD []) = r
  dsimp only
  split
  · have hc := hconn.handleWrite r
    split
    · exact h.updateConn fd hc rfl (keys_updateAt _ _ _) rfl
    · refine Sound.modify ?_ fd false
      exact h.updateConn fd hc rfl (keys_updateAt _ _ _) rfl
  · exact h.closeConnection fd

/-- The connection the server finds under a descriptor is one it may hold. -/
theorem Sound.held_of_lookup (h : w.Sound cap) {fd : Nat} {conn : Connection}
    (hc : w.conns.lookup fd = some conn) : conn.Held :=
  h.held _ ((HashTable.lookup_eq_some_iff h.nodup).1 hc)

/-- A descriptor with no connection or no socket is not a connection's. -/
theorem Sound.not_mem_of_lookup (h : w.Sound cap) {fd : Nat}
    (hnone : ∀ conn s, w.conns.lookup fd = some conn → w.sockets.lookup fd = some s → False) :
    fd ∉ keys w.conns := fun hm => by
  obtain ⟨conn, hc⟩ := Option.ne_none_iff_exists'.1
    (mt (HashTable.lookup_eq_none_iff w.conns fd).1 (not_not.2 hm))
  obtain ⟨s, hs⟩ := Option.ne_none_iff_exists'.1
    (mt (HashTable.lookup_eq_none_iff w.sockets fd).1 (not_not.2 (h.socket fd hm)))
  exact hnone conn s hc hs

/-- `handle_event` keeps the invariant. -/
theorem Sound.handleEvent (h : w.Sound cap) (fd : Nat) (flags : Flags) :
    (w.handleEvent exec fd flags).Sound cap := by
  unfold Loop.handleEvent
  split
  · rename_i conn s hc _
    split
    · exact h.closeConnection fd
    · generalize hr : (if flags.readable then w.readEvent exec fd conn s else (true, w)) = r
      have hsound : r.2.Sound cap := by
        rw [← hr]; split
        · exact h.readEvent exec fd s (h.held_of_lookup hc)
        · exact h
      dsimp only
      split
      · split
        · rename_i conn' s' hc' _
          exact hsound.writeEvent fd s' (hsound.held_of_lookup hc')
        · exact hsound
      · exact hsound
  · rename_i hnone
    have hfd := h.not_mem_of_lookup hnone
    refine ⟨h.limit, h.bounded, h.nodup, fun k hk => (mem_keys_eraseAt fd).2 ⟨h.socket k hk, ?_⟩,
      h.held⟩
    rintro rfl
    exact hfd hk

/-- INTERNAL: changing a socket, and waking it when it is registered. -/
theorem Sound.updateSocket_wake (h : w.Sound cap) (fd : Nat) (f : Socket → Socket) (b : Bool) :
    Sound cap (if b then (w.updateSocket fd f).wake (.client fd) else w.updateSocket fd f) := by
  split
  · exact (h.updateSocketAt fd f).wake _
  · exact h.updateSocketAt fd f

/-- Every action keeps the invariant. -/
theorem Sound.step (h : w.Sound cap) (a : Action) : (w.step exec a).Sound cap := by
  cases a with
  | connect fd =>
    refine Sound.wake ?_ _
    exact h.of_tables rfl rfl rfl
  | send fd bytes =>
    rw [Loop.step]; split
    · exact h
    · exact h.updateSocket_wake fd _ _
  | drain fd n =>
    rw [Loop.step]; split
    · split
      · exact (h.updateSocketAt fd _).wake _
      · exact h.updateSocketAt fd _
    · exact h.updateSocketAt fd _
  | hangup fd => exact h.updateSocket_wake fd _ _
  | reset fd => exact h.updateSocket_wake fd _ _
  | serve =>
    rw [Loop.step]; split
    · exact h
    · exact Sound.acceptConnection (h.of_tables rfl rfl rfl)
    · split
      · split
        · apply Sound.handleEvent exec
          exact h.of_tables rfl rfl rfl
        · exact h.of_tables rfl rfl rfl
      · exact h.of_tables rfl rfl rfl

/-- So does every run of actions. -/
theorem Sound.run : ∀ {w : Loop σ} (actions : List Action), w.Sound cap → (w.run exec actions).Sound cap
  | _, [], h => h
  | _, a :: as, h => Sound.run as (h.step exec a)

/-- A server after `init` is sound. -/
theorem sound_init (srv : σ) (maxConnections sendBuffer : Nat) :
    (init srv maxConnections sendBuffer).Sound maxConnections :=
  ⟨rfl, Nat.zero_le _, List.nodup_nil, fun _ h => absurd h (List.not_mem_nil _),
    fun _ h => absurd h (List.not_mem_nil _)⟩

/-- Every state a run of the event loop reaches is sound: whatever the clients send, however
the sockets fill and drain, and whatever `execute_command` computes, the server holds at most
`max_connections_` connections, one per descriptor, each `CONNECTED` with its socket open and
at most 10 MiB buffered. -/
theorem run_sound (srv : σ) (maxConnections sendBuffer : Nat) (actions : List Action) :
    ((init srv maxConnections sendBuffer).run exec actions).Sound maxConnections :=
  (sound_init srv maxConnections sendBuffer).run exec actions

end Loop

end BlinkDb
