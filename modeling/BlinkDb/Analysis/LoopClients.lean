import Mathlib.Algebra.Order.BigOperators.Group.List
import Mathlib.Algebra.Order.Ring.Nat
import BlinkDb.Analysis.LoopSession

/-!
# Many clients through the event loop

`BlinkDb.Analysis.LoopSession` follows one client through the event loop. Here any number of
clients connect, one after another, on the descriptors `fds`, and then the environment's actions
come in any order: each client's segments, acknowledgements, `FIN` and reset, and the entries of
epoll's ready list, served one at a time. The server keeps one state, and
`execute_command` runs on it for whichever connection has a complete command.

What each client gets back is a linearization. At every point of every run there is a history:
the commands executed so far, in the order the server executed them, each tagged with its
client's descriptor. The server's state is that of executing the history in order (`replay`);
the history holds only the clients' commands, and each client's are the first ones it sent, in
its order, each once; and while its connection is open, the bytes of those commands followed by
the buffer and the bytes still in the socket are what the client sent, and what `send` accepted
on its socket followed by its output queue is the responses its commands got in the history, in
order, and nothing else (`run_linearizes`). So the loop never loses, repeats, reorders or
misroutes a command or a response, whatever the interleaving: what one client sees of another is
only the other's effect on the server's state, at the point of the history where it ran.

`Linear` is the invariant and `Linear.step` the step lemma, one case per action; a read is the
only step that extends the history, by the commands its bytes complete (`handleRead_frames`).
Over the storage engine, every client is answered as one key-value map answers the requests of
all clients in the history's order (`loop_clients_see_one_map`).
-/

set_option autoImplicit false

open scoped List

namespace BlinkDb

open HashTable (lookup_cons_pair lookup_filter_ne)
open Connection (Fits encodeCommands runCommands Pending)

/-! ## Tables and lists tagged by descriptor -/

section Tagged

variable {α : Type} (fd : Nat)

/-- INTERNAL: the entry of a descriptor after `updateAt`. -/
theorem lookup_updateAt (f : α → α) (k : Nat) (l : List (Nat × α)) :
    (updateAt fd f l).lookup k = if k = fd then (l.lookup k).map f else l.lookup k := by
  induction l with
  | nil => simp [updateAt]
  | cons p l ih =>
    obtain ⟨a, b⟩ := p
    unfold updateAt
    split
    · rename_i ha
      subst ha
      by_cases hk : k = a <;> simp [hk]
    · rename_i ha
      rw [lookup_cons_pair, lookup_cons_pair, ih]
      by_cases hk : k = a <;> simp [hk, ha]

/-- INTERNAL: the entry of a descriptor after `eraseAt`. -/
theorem lookup_eraseAt (k : Nat) (l : List (Nat × α)) :
    (eraseAt fd l).lookup k = if k = fd then none else l.lookup k :=
  lookup_filter_ne l k fd

/-- INTERNAL: `updateAt` of `fd` leaves the entries of the other descriptors. -/
theorem lookup_updateAt_of_ne {f : α → α} {l : List (Nat × α)} {k : Nat} (hne : k ≠ fd) :
    (updateAt fd f l).lookup k = l.lookup k := by
  rw [lookup_updateAt, if_neg hne]

/-- INTERNAL: `eraseAt` of `fd` leaves the entries of the other descriptors. -/
theorem lookup_eraseAt_of_ne {l : List (Nat × α)} {k : Nat} (hne : k ≠ fd) :
    (eraseAt fd l).lookup k = l.lookup k := by
  rw [lookup_eraseAt, if_neg hne]

/-- The entries of the descriptor `fd` in a list tagged by descriptors, in order. -/
def ofFd (l : List (Nat × α)) : List α := (l.filter fun e => e.1 = fd).map Prod.snd

/-- INTERNAL: an empty list has no entries of `fd`. -/
@[simp] theorem ofFd_nil : ofFd fd ([] : List (Nat × α)) = [] := rfl

/-- INTERNAL: the entries of `fd` in two lists, one after the other. -/
@[simp] theorem ofFd_append (l l' : List (Nat × α)) : ofFd fd (l ++ l') = ofFd fd l ++ ofFd fd l' := by
  simp [ofFd]

/-- INTERNAL: the entries of `fd` in a list, the first entry apart. -/
theorem ofFd_cons (fd' : Nat) (x : α) (l : List (Nat × α)) :
    ofFd fd ((fd', x) :: l) = (if fd' = fd then [x] else []) ++ ofFd fd l := by
  by_cases h : fd' = fd <;> simp [ofFd, h]

/-- INTERNAL: an entry of a list is among the entries of its descriptor. -/
theorem mem_ofFd {l : List (Nat × α)} {e : Nat × α} (h : e ∈ l) : e.2 ∈ ofFd e.1 l :=
  List.mem_map.2 ⟨e, List.mem_filter.2 ⟨h, by simp⟩, rfl⟩

/-- INTERNAL: a list tagged with one descriptor throughout. -/
theorem ofFd_tag (fd' : Nat) (xs : List α) :
    ofFd fd (xs.map fun x => (fd', x)) = if fd' = fd then xs else [] := by
  induction xs with
  | nil => simp
  | cons x xs ih => rw [List.map_cons, ofFd_cons, ih]; split <;> simp

/-- INTERNAL: relabelling the entries keeps their tags. -/
theorem ofFd_map {β : Type} (f : α → β) (l : List (Nat × α)) :
    ofFd fd (l.map fun e => (e.1, f e.2)) = (ofFd fd l).map f := by
  induction l with
  | nil => rfl
  | cons e l ih => rw [List.map_cons, ofFd_cons, ofFd_cons, ih]; split <;> simp

end Tagged

/-! ## Executing a history -/

/-- Steps of `f` taken one after another from `s`, each tagged with the descriptor it was taken
for: the results, tagged the same way, and the final state. -/
def replay {σ α β : Type} (f : σ → α → β × σ) (s : σ) : List (Nat × α) → List (Nat × β) × σ
  | [] => ([], s)
  | e :: es =>
    let r := f s e.2
    let rest := replay f r.2 es
    ((e.1, r.1) :: rest.1, rest.2)

/-- INTERNAL: replaying two histories one after the other, the second from where the first
left the state. -/
theorem replay_append {σ α β : Type} (f : σ → α → β × σ) (s : σ) (a b : List (Nat × α)) :
    replay f s (a ++ b) =
      ((replay f s a).1 ++ (replay f (replay f s a).2 b).1, (replay f (replay f s a).2 b).2) := by
  induction a generalizing s with
  | nil => rfl
  | cons e a ih => simp [replay, ih]

namespace Loop

variable {σ : Type} (exec : Executor σ)

/-- `execute_command` on a command as `process_commands` passes it on: its name in upper case. -/
def execCommand (srv : σ) (cmd : Bytes × List Bytes) : Bytes × σ := exec srv (uppercase cmd.1) cmd.2

/-- INTERNAL: one client's commands, executed in a row. -/
theorem replay_tag (srv : σ) (fd : Nat) (cmds : List (Bytes × List Bytes)) :
    replay (execCommand exec) srv (cmds.map fun cmd => (fd, cmd)) =
      ((runCommands exec srv cmds).1.map fun r => (fd, r), (runCommands exec srv cmds).2) := by
  induction cmds generalizing srv with
  | nil => rfl
  | cons cmd cmds ih => simp [replay, runCommands, execCommand, ih]

/-- INTERNAL: a client's responses after its next commands ran. -/
theorem ofFd_replay_tag (srv : σ) (hist : List (Nat × (Bytes × List Bytes))) (fd fd' : Nat)
    (cmds : List (Bytes × List Bytes)) :
    ofFd fd' (replay (execCommand exec) srv (hist ++ cmds.map fun cmd => (fd, cmd))).1 =
      ofFd fd' (replay (execCommand exec) srv hist).1 ++
        if fd = fd' then (runCommands exec (replay (execCommand exec) srv hist).2 cmds).1 else [] := by
  rw [replay_append, replay_tag, ofFd_append, ofFd_tag]

/-! ## The invariant -/

/-- The loop's side of one client's session while its connection `c` is open, with socket `s`:
`executed` are the client's commands the server ran and `replies` their responses. Their bytes
followed by the buffer and the bytes still in the socket are what the client `sent`; the buffer
holds a proper prefix of the next command of its `plan`; and what `send` accepted followed by the
queue is the responses in order. -/
structure Serves (plan executed : List (Bytes × List Bytes)) (replies : List Bytes) (sent : Bytes)
    (c : Connection) (s : Socket) : Prop where
  connected : c.state = .connected
  buffer : encodeCommands executed ++ c.inputBuffer ++ s.unread = sent
  pending : Pending (plan.drop executed.length) c.inputBuffer
  responses : s.delivered ++ c.outputQueue.flatten = replies.flatten

/-- Only a socket's bytes matter to the session. -/
theorem Serves.socket {plan executed : List (Bytes × List Bytes)} {replies : List Bytes}
    {sent : Bytes} {c : Connection} {s s' : Socket}
    (h : Serves plan executed replies sent c s) (hu : s'.unread = s.unread)
    (hd : s'.delivered = s.delivered) : Serves plan executed replies sent c s' :=
  ⟨h.connected, hu ▸ h.buffer, h.pending, hd ▸ h.responses⟩

/-- The loop after the clients on `fds` sent `sent`, with `hist` the commands the server
executed, in order, each tagged with its client's descriptor. No connection waits for `accept`;
the server's state is that of executing `hist`; every command of `hist` is a client's, and each
client's are the first of its `plan`; every open connection is a client's and serves it. -/
structure Linear (srv : σ) (fds : List Nat) (plan : Nat → List (Bytes × List Bytes))
    (sent : Nat → Bytes) (hist : List (Nat × (Bytes × List Bytes))) (w : Loop σ) : Prop where
  backlog : w.backlog = []
  server : w.srv = (replay (execCommand exec) srv hist).2
  tagged : ∀ e ∈ hist, e.1 ∈ fds
  planned : ∀ fd, ofFd fd hist <+: plan fd
  serves : ∀ fd c, w.conns.lookup fd = some c → fd ∈ fds ∧ ∃ s, w.sockets.lookup fd = some s ∧
    Serves (plan fd) (ofFd fd hist) (ofFd fd (replay (execCommand exec) srv hist).1) (sent fd) c s

variable {srv : σ} {fds : List Nat} {plan : Nat → List (Bytes × List Bytes)} {sent : Nat → Bytes}
  {hist : List (Nat × (Bytes × List Bytes))}

/-- A change of the loop, the history and what the clients sent that concerns only the client
of `fd` keeps the invariant once it keeps that client's part. -/
theorem Linear.update {w w' : Loop σ} {sent' : Nat → Bytes}
    {hist' : List (Nat × (Bytes × List Bytes))} (h : Linear exec srv fds plan sent hist w) (fd : Nat)
    (hb : w'.backlog = []) (hsrv : w'.srv = (replay (execCommand exec) srv hist').2)
    (htag : ∀ e ∈ hist', e.1 ∈ fds)
    (hothers : ∀ fd', fd' ≠ fd → sent' fd' = sent fd' ∧ ofFd fd' hist' = ofFd fd' hist ∧
      ofFd fd' (replay (execCommand exec) srv hist').1 = ofFd fd' (replay (execCommand exec) srv hist).1 ∧
      w'.conns.lookup fd' = w.conns.lookup fd' ∧ w'.sockets.lookup fd' = w.sockets.lookup fd')
    (hplanned : ofFd fd hist' <+: plan fd)
    (hfd : ∀ c, w'.conns.lookup fd = some c → fd ∈ fds ∧ ∃ s, w'.sockets.lookup fd = some s ∧
      Serves (plan fd) (ofFd fd hist') (ofFd fd (replay (execCommand exec) srv hist').1) (sent' fd) c s) :
    Linear exec srv fds plan sent' hist' w' where
  backlog := hb
  server := hsrv
  tagged := htag
  planned fd' := by
    by_cases h' : fd' = fd
    · subst h'; exact hplanned
    · rw [(hothers fd' h').2.1]; exact h.planned fd'
  serves fd' c hc := by
    by_cases h' : fd' = fd
    · subst h'; exact hfd c hc
    · obtain ⟨hs, hh, hr, hcl, hsl⟩ := hothers fd' h'
      rw [hcl] at hc
      rw [hs, hh, hr, hsl]
      exact h.serves fd' c hc

/-- A state with the same connections, sockets, backlog and server state. -/
theorem Linear.of_eq {w w' : Loop σ} (h : Linear exec srv fds plan sent hist w)
    (hb : w'.backlog = w.backlog) (hc : w'.conns = w.conns) (hs : w'.sockets = w.sockets)
    (hsrv : w'.srv = w.srv) : Linear exec srv fds plan sent hist w' :=
  ⟨hb.trans h.backlog, hsrv.trans h.server, h.tagged, h.planned, by rw [hc, hs]; exact h.serves⟩

/-- Changing a socket's flags, not its bytes, keeps the invariant. -/
theorem Linear.flags {w w' : Loop σ} (h : Linear exec srv fds plan sent hist w) (fd : Nat)
    (f : Socket → Socket) (hf : ∀ s, (f s).unread = s.unread ∧ (f s).delivered = s.delivered)
    (hb : w'.backlog = w.backlog) (hc : w'.conns = w.conns) (hsrv : w'.srv = w.srv)
    (hs : w'.sockets = updateAt fd f w.sockets) : Linear exec srv fds plan sent hist w' :=
  h.update exec fd (hb.trans h.backlog) (hsrv.trans h.server) h.tagged
    (fun fd' hne => ⟨rfl, rfl, rfl, by rw [hc], by rw [hs, lookup_updateAt_of_ne _ hne]⟩) (h.planned fd)
    fun c hc' => by
      rw [hc] at hc'
      obtain ⟨hmem, s, hs', hsv⟩ := h.serves fd c hc'
      exact ⟨hmem, f s, by rw [hs, lookup_updateAt, if_pos rfl, hs']; rfl, hsv.socket (hf s).1 (hf s).2⟩

/-- A wake-up only queues an entry. -/
theorem Linear.wake {w : Loop σ} (h : Linear exec srv fds plan sent hist w) (e : Ready) :
    Linear exec srv fds plan sent hist (w.wake e) := by
  unfold Loop.wake; split
  · exact h
  · exact h.of_eq exec rfl rfl rfl rfl

/-- So does polling a socket. -/
theorem Linear.repoll {w : Loop σ} (h : Linear exec srv fds plan sent hist w) (fd : Nat) :
    Linear exec srv fds plan sent hist (w.repoll fd) := by
  unfold Loop.repoll; split
  · split
    · exact h.wake exec _
    · exact h
  · exact h

/-- `EPOLL_CTL_MOD` keeps the invariant. -/
theorem Linear.modify {w : Loop σ} (h : Linear exec srv fds plan sent hist w) (fd : Nat) (out : Bool) :
    Linear exec srv fds plan sent hist (w.modify fd out) := by
  refine Linear.repoll exec ?_ fd
  exact h.flags exec fd (fun s => { s with wantsWrite := out }) (fun _ => ⟨rfl, rfl⟩) rfl rfl rfl rfl

/-- Changing a socket's flags, registered or not, and waking it, keeps the invariant. -/
theorem Linear.updateSocket_wake {w : Loop σ} (h : Linear exec srv fds plan sent hist w) (fd : Nat)
    (f : Socket → Socket) (hf : ∀ s, (f s).unread = s.unread ∧ (f s).delivered = s.delivered)
    (b : Bool) :
    Linear exec srv fds plan sent hist
      (if b then (w.updateSocket fd f).wake (.client fd) else w.updateSocket fd f) := by
  have hu : Linear exec srv fds plan sent hist (w.updateSocket fd f) := by
    unfold Loop.updateSocket; split
    · exact h.flags exec fd f hf rfl rfl rfl rfl
    · exact h.of_eq exec (by simp [h.backlog, updateAt]) rfl rfl rfl
  split
  · exact hu.wake exec _
  · exact hu

/-- Closing a connection, whatever its socket holds by then. -/
theorem Linear.closeConnection {w w' : Loop σ} (h : Linear exec srv fds plan sent hist w) (fd : Nat)
    (hb : w'.backlog = w.backlog) (hc : w'.conns = w.conns) (hsrv : w'.srv = w.srv)
    (hs : ∀ fd', fd' ≠ fd → w'.sockets.lookup fd' = w.sockets.lookup fd') :
    Linear exec srv fds plan sent hist (w'.closeConnection fd) :=
  h.update exec fd (hb.trans h.backlog) (hsrv.trans h.server) h.tagged
    (fun fd' hne => ⟨rfl, rfl, rfl, (lookup_eraseAt_of_ne _ hne).trans (by rw [hc]),
      (lookup_eraseAt_of_ne _ hne).trans (hs fd' hne)⟩)
    (h.planned fd)
    fun c hc => by
      simp only [Loop.closeConnection] at hc
      rw [lookup_eraseAt, if_pos rfl] at hc
      cases hc

/-! ## One step at a time -/

/-- `handle_read` of a chunk that continues, after the buffer, the client's next commands: when
it keeps the connection, it has executed the commands the chunk completes, from whatever state
the server is in, and queued their responses. -/
theorem handleRead_frames {c : Connection} {srv' : σ} {chunk : Bytes}
    {cmds : List (Bytes × List Bytes)} (hcmds : ∀ cmd ∈ cmds, Fits cmd) (hc : c.state = .connected)
    (hne : chunk ≠ []) (hpre : c.inputBuffer ++ chunk <+: encodeCommands cmds)
    (hread : (c.handleRead exec srv' (.bytes chunk)).1 = true) :
    ∃ j buf, c.inputBuffer ++ chunk = encodeCommands (cmds.take j) ++ buf ∧ Pending (cmds.drop j) buf ∧
      c.handleRead exec srv' (.bytes chunk) =
        (true, { c with inputBuffer := buf,
                        outputQueue := c.outputQueue ++ (runCommands exec srv' (cmds.take j)).1 },
          (runCommands exec srv' (cmds.take j)).2) := by
  obtain ⟨b, bs, rfl⟩ := List.exists_cons_of_ne_nil hne
  have hguard : ¬ maxInputBufferSize < c.inputBuffer.length + (b :: bs).length := fun hg => by
    simp only [Connection.handleRead, hc, ne_eq, not_true_eq_false, if_false, if_pos hg] at hread
    cases hread
  obtain ⟨j, buf, hbuf, hpend, hloop⟩ := Connection.processLoop_frames exec cmds
    (2 * (c.inputBuffer ++ b :: bs).length + 2) { c with inputBuffer := c.inputBuffer ++ b :: bs } srv'
    hcmds hc hpre (by simp only []; omega)
  refine ⟨j, buf, hbuf, hpend, ?_⟩
  simp only [Connection.handleRead, hc, ne_eq, not_true_eq_false, if_false]
  rw [if_neg hguard, Connection.processCommands]
  rw [hc] at hloop
  exact hloop

/-- A client's segment arriving in its socket. -/
theorem Linear.send {w : Loop σ} (h : Linear exec srv fds plan sent hist w) (fd : Nat) (bytes : Bytes) :
    Linear exec srv fds plan (fun fd' => sent fd' ++ sentBy fd' [.send fd bytes]) hist
      (w.step exec (.send fd bytes)) := by
  have hsent : ∀ fd', sent fd' ++ sentBy fd' [.send fd bytes] =
      sent fd' ++ if fd = fd' then bytes else [] := fun fd' => by simp only [sentBy, List.append_nil]
  simp only [hsent]
  rw [Loop.step]
  split
  · rename_i hbytes
    simp only [hbytes, ite_self, List.append_nil]
    exact h
  have hu : Linear exec srv fds plan (fun fd' => sent fd' ++ if fd = fd' then bytes else []) hist
      (w.updateSocket fd fun s => { s with unread := s.unread ++ bytes }) := by
    unfold Loop.updateSocket
    split
    · refine h.update exec fd h.backlog h.server h.tagged
        (fun fd' hne => ⟨by simp [Ne.symm hne], rfl, rfl, rfl,
          lookup_updateAt_of_ne _ hne⟩) (h.planned fd) fun c hc => ?_
      obtain ⟨hmem, s, hs, hsv⟩ := h.serves fd c hc
      refine ⟨hmem, { s with unread := s.unread ++ bytes }, by rw [lookup_updateAt, if_pos rfl, hs]; rfl,
        hsv.connected, ?_, hsv.pending, hsv.responses⟩
      rw [if_pos rfl, ← hsv.buffer, List.append_assoc _ s.unread]
    · rename_i hnot
      refine h.update exec fd (by simp [h.backlog, updateAt]) h.server h.tagged
        (fun fd' hne => ⟨by simp [Ne.symm hne], rfl, rfl, rfl, rfl⟩) (h.planned fd) fun c hc => ?_
      obtain ⟨-, s, hs, -⟩ := h.serves fd c hc
      exact absurd (by rw [hs]; rfl) hnot
  dsimp only
  split
  · exact hu.wake exec _
  · exact hu

/-- The read branch of `handle_event` on a client's open connection: one `recv` of at most
`MAX_READ_SIZE` bytes, then `handle_read`. The history grows by the commands those bytes
complete, run from the server's current state, or the connection closes. -/
theorem Linear.readEvent (hcmds : ∀ fd ∈ fds, ∀ cmd ∈ plan fd, Fits cmd)
    (hpre : ∀ fd ∈ fds, sent fd <+: encodeCommands (plan fd)) {w : Loop σ}
    (h : Linear exec srv fds plan sent hist w) {fd : Nat} {c : Connection} {s : Socket}
    (hc : w.conns.lookup fd = some c) (hs : w.sockets.lookup fd = some s) :
    ∃ hist', hist <+: hist' ∧ Linear exec srv fds plan sent hist' (w.readEvent exec fd c s).2 := by
  obtain ⟨hmem, s₀, hs₀, hsv⟩ := h.serves fd c hc
  rw [hs, Option.some.injEq] at hs₀
  subst hs₀
  obtain ⟨rest, hrest⟩ := h.planned fd
  have hfits : ∀ cmd ∈ rest, Fits cmd := fun cmd hm =>
    hcmds fd hmem cmd (hrest ▸ List.mem_append_right _ hm)
  have hpre' : c.inputBuffer ++ s.unread <+: encodeCommands rest := by
    have hp := hpre fd hmem
    rw [← hsv.buffer, ← hrest, Connection.encodeCommands_append, List.append_assoc] at hp
    exact (List.prefix_append_right_inj _).1 hp
  obtain ⟨srvNow, conns, sockets, backlog, ready, mc, sb⟩ := w
  simp only at hc hs
  have hsrv : srvNow = (replay (execCommand exec) srv hist).2 := h.server
  by_cases hu : s.unread = []
  · by_cases heof : s.eof = true
    · have hr : c.handleRead exec srvNow s.recvResult = (false, { c with state := .closing }, srvNow) := by
        simp [Socket.recvResult, hu, heof, Connection.handleRead, hsv.connected]
      simp only [Loop.readEvent, hr, Bool.false_eq_true, if_false]
      exact ⟨hist, List.prefix_refl _, h.closeConnection exec fd rfl rfl rfl fun fd' hne =>
        lookup_updateAt_of_ne _ hne⟩
    have hr : c.handleRead exec srvNow s.recvResult = (true, c, srvNow) := by
      simp [Socket.recvResult, hu, heof, Connection.handleRead, hsv.connected]
    simp only [Loop.readEvent, hr, if_true]
    have hW : Linear exec srv fds plan sent hist ⟨srvNow, updateAt fd (fun _ => c) conns,
        updateAt fd (fun s => { s with unread := s.unread.drop maxReadSize }) sockets, backlog, ready, mc, sb⟩ := by
      refine h.update exec fd h.backlog h.server h.tagged (fun fd' hne => ⟨rfl, rfl, rfl,
        lookup_updateAt_of_ne _ hne, lookup_updateAt_of_ne _ hne⟩)
        (h.planned fd) fun c' hc' => ?_
      simp only [] at hc' ⊢
      rw [lookup_updateAt, if_pos rfl, hc] at hc'
      cases hc'
      exact ⟨hmem, { s with unread := s.unread.drop maxReadSize },
        by rw [lookup_updateAt, if_pos rfl, hs]; rfl, hsv.socket (by simp only [hu, List.drop_nil]) rfl⟩
    refine ⟨hist, List.prefix_refl _, ?_⟩
    split
    · exact hW.modify exec fd true
    · exact hW
  · have hne : s.unread.take maxReadSize ≠ [] := by simpa [maxReadSize] using hu
    have hisEmpty : s.unread.isEmpty = false := by simpa using hu
    simp only [Loop.readEvent, Socket.recvResult, hisEmpty, Bool.false_eq_true, if_false]
    by_cases hread : (c.handleRead exec srvNow (.bytes (s.unread.take maxReadSize))).1 = true
    · obtain ⟨j, buf, hbuf, hpend, heq⟩ := handleRead_frames exec hfits hsv.connected hne
        (((List.prefix_append_right_inj _).2 (List.take_prefix _ _)).trans hpre') hread
      rw [heq]
      simp only [if_true]
      have hmine : ofFd fd (hist ++ (rest.take j).map fun cmd => (fd, cmd)) = ofFd fd hist ++ rest.take j := by
        rw [ofFd_append, ofFd_tag, if_pos rfl]
      have hdrop : rest.drop (rest.take j).length = rest.drop j := by
        rw [List.length_take]
        rcases Nat.le_total j rest.length with hj | hj
        · rw [Nat.min_eq_left hj]
        · rw [Nat.min_eq_right hj, List.drop_length, List.drop_eq_nil_of_le hj]
      have hW : Linear exec srv fds plan sent (hist ++ (rest.take j).map fun cmd => (fd, cmd))
          ⟨(runCommands exec srvNow (rest.take j)).2,
            updateAt fd
              (fun _ => { c with inputBuffer := buf,
                                 outputQueue := c.outputQueue ++ (runCommands exec srvNow (rest.take j)).1 })
              conns,
            updateAt fd (fun s => { s with unread := s.unread.drop maxReadSize }) sockets, backlog, ready, mc,
            sb⟩ := by
        refine h.update exec fd h.backlog (by rw [replay_append, replay_tag, ← hsrv]) (fun e he => ?_)
          (fun fd' hne => ⟨rfl, by rw [ofFd_append, ofFd_tag, if_neg (Ne.symm hne), List.append_nil],
            by rw [ofFd_replay_tag, if_neg (Ne.symm hne), List.append_nil],
            lookup_updateAt_of_ne _ hne,
            lookup_updateAt_of_ne _ hne⟩)
          (by rw [hmine, ← hrest]; exact (List.prefix_append_right_inj _).2 (List.take_prefix _ _))
          fun c' hc' => ?_
        · rcases List.mem_append.1 he with he | he
          · exact h.tagged e he
          · obtain ⟨cmd, -, rfl⟩ := List.mem_map.1 he
            exact hmem
        · simp only [] at hc' ⊢
          rw [lookup_updateAt, if_pos rfl, hc] at hc'
          cases hc'
          refine ⟨hmem, { s with unread := s.unread.drop maxReadSize },
            by rw [lookup_updateAt, if_pos rfl, hs]; rfl, hsv.connected, ?_, ?_, ?_⟩
          · rw [hmine, Connection.encodeCommands_append, ← hsv.buffer]
            simp only [List.append_assoc]
            rw [← List.append_assoc (encodeCommands (rest.take j)), ← hbuf]
            simp only [List.append_assoc, List.take_append_drop]
          · rw [hmine, ← hrest, List.length_append, List.drop_append, hdrop]
            exact hpend
          · show s.delivered ++ (c.outputQueue ++ _).flatten = _
            rw [List.flatten_append, ofFd_replay_tag, if_pos rfl, ← hsrv, List.flatten_append,
              ← hsv.responses, List.append_assoc]
      refine ⟨_, List.prefix_append hist ((rest.take j).map fun cmd => (fd, cmd)), ?_⟩
      split
      · exact hW.modify exec fd true
      · exact hW
    · simp only [Bool.not_eq_true] at hread
      simp only [hread, Bool.false_eq_true, if_false]
      exact ⟨hist, List.prefix_refl _, h.closeConnection exec fd rfl rfl rfl fun fd' hne =>
        lookup_updateAt_of_ne _ hne⟩

/-- The write branch of `handle_event` on a client's open connection: `send` of the front
message, then `handle_write`. What `send` accepts leaves the front of the queue for the socket,
or the connection closes. -/
theorem Linear.writeEvent {w : Loop σ} (h : Linear exec srv fds plan sent hist w) {fd : Nat}
    {c : Connection} {s : Socket} (hc : w.conns.lookup fd = some c) (hs : w.sockets.lookup fd = some s) :
    Linear exec srv fds plan sent hist (w.writeEvent fd c s) := by
  obtain ⟨hmem, s₀, hs₀, hsv⟩ := h.serves fd c hc
  rw [hs, Option.some.injEq] at hs₀
  subst hs₀
  obtain ⟨srvNow, conns, sockets, backlog, ready, mc, sb⟩ := w
  simp only at hc hs
  unfold Loop.writeEvent
  by_cases hw : (c.handleWrite (s.sendResult (c.outputQueue.headD []))).1 = true
  · have hallowed : ConnWorld.allowed ⟨c, srvNow, s.delivered⟩
        (.write (s.sendResult (c.outputQueue.headD []))) = true :=
      allowed_writeEvent hsv.connected hw
    generalize s.sendResult (c.outputQueue.headD []) = r at hw hallowed
    dsimp only
    rw [if_pos hw]
    obtain ⟨queue, hwr, hq⟩ := ConnWorld.handleWrite_allowed hsv.connected hallowed
    have hW : Linear exec srv fds plan sent hist ⟨srvNow, updateAt fd (fun _ => (c.handleWrite r).2) conns,
        updateAt fd (fun s => { s with room := s.room - (ConnWorld.accepted c r).length,
                                       delivered := s.delivered ++ ConnWorld.accepted c r })
          sockets, backlog, ready, mc, sb⟩ := by
      refine h.update exec fd h.backlog h.server h.tagged (fun fd' hne => ⟨rfl, rfl, rfl,
        lookup_updateAt_of_ne _ hne, lookup_updateAt_of_ne _ hne⟩)
        (h.planned fd) fun c' hc' => ?_
      simp only [] at hc' ⊢
      rw [lookup_updateAt, if_pos rfl, hc, hwr] at hc'
      cases hc'
      refine ⟨hmem, { s with room := s.room - (ConnWorld.accepted c r).length,
                             delivered := s.delivered ++ ConnWorld.accepted c r },
        by rw [lookup_updateAt, if_pos rfl, hs]; rfl, hsv.connected, hsv.buffer, hsv.pending, ?_⟩
      show s.delivered ++ ConnWorld.accepted c r ++ queue.flatten = _
      rw [List.append_assoc, hq, hsv.responses]
    split
    · exact hW
    · exact hW.modify exec fd false
  · dsimp only
    rw [if_neg hw]
    exact h.closeConnection exec fd rfl rfl rfl fun _ _ => rfl

/-- `handle_event`, whatever the descriptor and the flags. -/
theorem Linear.handleEvent (hcmds : ∀ fd ∈ fds, ∀ cmd ∈ plan fd, Fits cmd)
    (hpre : ∀ fd ∈ fds, sent fd <+: encodeCommands (plan fd)) {w : Loop σ}
    (h : Linear exec srv fds plan sent hist w) (fd : Nat) (flags : Flags) :
    ∃ hist', hist <+: hist' ∧ Linear exec srv fds plan sent hist' (w.handleEvent exec fd flags) := by
  unfold Loop.handleEvent
  split
  · rename_i c s hc hs
    split
    · exact ⟨hist, List.prefix_refl _, h.closeConnection exec fd rfl rfl rfl fun _ _ => rfl⟩
    · generalize hr : (if flags.readable then w.readEvent exec fd c s else (true, w)) = r
      obtain ⟨hist₁, hp₁, h₁⟩ : ∃ hist₁, hist <+: hist₁ ∧ Linear exec srv fds plan sent hist₁ r.2 := by
        rw [← hr]
        split
        · exact h.readEvent exec hcmds hpre hc hs
        · exact ⟨hist, List.prefix_refl _, h⟩
      dsimp only
      split
      · split
        · rename_i c' s' hc' hs'
          exact ⟨hist₁, hp₁, h₁.writeEvent exec hc' hs'⟩
        · exact ⟨hist₁, hp₁, h₁⟩
      · exact ⟨hist₁, hp₁, h₁⟩
  · rename_i hnone
    refine ⟨hist, List.prefix_refl _, h.update exec fd h.backlog h.server h.tagged
      (fun fd' hne => ⟨rfl, rfl, rfl, rfl, lookup_eraseAt_of_ne _ hne⟩)
      (h.planned fd) fun c hc => ?_⟩
    obtain ⟨-, s, hs, -⟩ := h.serves fd c hc
    exact (hnone c s hc hs).elim

/-- Every action but a new connection keeps the invariant, with the bytes a client sends appended
to what it sent: the history grows. -/
theorem Linear.step (hcmds : ∀ fd ∈ fds, ∀ cmd ∈ plan fd, Fits cmd) {w : Loop σ}
    (h : Linear exec srv fds plan sent hist w) (a : Action) (ha : ∀ fd, a ≠ .connect fd)
    (hpre : ∀ fd ∈ fds, sent fd ++ sentBy fd [a] <+: encodeCommands (plan fd)) :
    ∃ hist', hist <+: hist' ∧
      Linear exec srv fds plan (fun fd => sent fd ++ sentBy fd [a]) hist' (w.step exec a) := by
  cases a with
  | connect fd => exact absurd rfl (ha fd)
  | send fd bytes => exact ⟨hist, List.prefix_refl _, h.send exec fd bytes⟩
  | drain fd n =>
    simp only [sentBy, List.append_nil]
    have hu := h.updateSocket_wake exec fd (fun s => { s with room := s.room + n }) (fun _ => ⟨rfl, rfl⟩)
    refine ⟨hist, List.prefix_refl _, ?_⟩
    rw [Loop.step]
    split
    · split
      · exact hu true
      · exact hu false
    · exact hu false
  | hangup fd =>
    simp only [sentBy, List.append_nil]
    exact ⟨hist, List.prefix_refl _,
      h.updateSocket_wake exec fd (fun s => { s with eof := true }) (fun _ => ⟨rfl, rfl⟩) _⟩
  | reset fd =>
    simp only [sentBy, List.append_nil]
    exact ⟨hist, List.prefix_refl _,
      h.updateSocket_wake exec fd (fun s => { s with reset := true }) (fun _ => ⟨rfl, rfl⟩) _⟩
  | serve =>
    simp only [sentBy, List.append_nil] at hpre ⊢
    rw [Loop.step]
    split
    · exact ⟨hist, List.prefix_refl _, h⟩
    · refine ⟨hist, List.prefix_refl _, ?_⟩
      unfold Loop.acceptConnection
      simp only [h.backlog]
      exact h.of_eq exec h.backlog.symm rfl rfl rfl
    · split
      · split
        · refine Linear.handleEvent exec hcmds hpre ?_ _ _
          exact h.of_eq exec rfl rfl rfl rfl
        · exact ⟨hist, List.prefix_refl _, h.of_eq exec rfl rfl rfl rfl⟩
      · exact ⟨hist, List.prefix_refl _, h.of_eq exec rfl rfl rfl rfl⟩

/-- The invariant along a run of actions with no new connection: the history only grows. -/
theorem Linear.run (hcmds : ∀ fd ∈ fds, ∀ cmd ∈ plan fd, Fits cmd) :
    ∀ (actions : List Action) {w : Loop σ} {sent : Nat → Bytes}
      {hist : List (Nat × (Bytes × List Bytes))}, Linear exec srv fds plan sent hist w →
      (∀ a ∈ actions, ∀ fd, a ≠ .connect fd) →
      (∀ fd ∈ fds, sent fd ++ sentBy fd actions <+: encodeCommands (plan fd)) →
      ∃ hist', hist <+: hist' ∧
        Linear exec srv fds plan (fun fd => sent fd ++ sentBy fd actions) hist' (w.run exec actions)
  | [], _, _, hist, h, _, _ => ⟨hist, List.prefix_refl _, by simpa [sentBy] using h⟩
  | a :: as, _, sent, _, h, ha, hpre => by
    have hpre' : ∀ fd ∈ fds, (sent fd ++ sentBy fd [a]) ++ sentBy fd as <+: encodeCommands (plan fd) :=
      fun fd hfd => by rw [List.append_assoc, ← sentBy_cons]; exact hpre fd hfd
    obtain ⟨hist₁, hp₁, h₁⟩ := h.step exec hcmds a (ha a (List.mem_cons_self _ _))
      fun fd hfd => (List.prefix_append _ _).trans (hpre' fd hfd)
    obtain ⟨hist', hp', h'⟩ := Linear.run hcmds as h₁ (fun b hb => ha b (List.mem_cons_of_mem _ hb)) hpre'
    refine ⟨hist', hp₁.trans hp', ?_⟩
    simp only [List.append_assoc, ← sentBy_cons] at h'
    exact h'

/-! ## Clients connecting -/

/-- The clients on `fds` connect one after another, each accepted, or refused when the server is
full, before the next one connects. -/
def connectAll (fds : List Nat) : List Action := fds.flatMap fun fd => [.connect fd, .serve]

/-- A fresh server serves every client, with an empty history. -/
theorem linear_init (srv : σ) (maxConnections sendBuffer : Nat) (fds : List Nat)
    (plan : Nat → List (Bytes × List Bytes)) :
    Linear exec srv fds plan (fun _ => []) [] (init srv maxConnections sendBuffer) :=
  ⟨rfl, rfl, fun _ h => absurd h (List.not_mem_nil _), fun _ => List.nil_prefix,
    fun _ _ h => by simp [init] at h⟩

/-- A new connection serves a client that has sent nothing. -/
theorem serves_init (plan : List (Bytes × List Bytes)) (room : Nat) :
    Serves plan [] [] [] Connection.init (Socket.fresh room) where
  connected := rfl
  buffer := rfl
  pending := by
    cases plan with
    | nil => rfl
    | cons cmd _ => exact ⟨List.nil_prefix, by simp [Connection.init, Client.encodeCommand]⟩
  responses := rfl

/-- INTERNAL: polling a socket that reports nothing queues nothing. -/
theorem repoll_quiet {w : Loop σ} {fd : Nat} {s : Socket} (hs : w.sockets.lookup fd = some s)
    (hq : s.events.any = false) : w.repoll fd = w := by
  simp [Loop.repoll, hs, hq]

/-- A client connects and the server takes its `accept` event: it is accepted with a new
connection, or refused. -/
theorem Linear.connect {w : Loop σ} (h : Linear exec srv fds plan (fun _ => []) [] w)
    (hready : w.ready = []) {fd : Nat} (hfd : fd ∈ fds) :
    ((w.step exec (.connect fd)).step exec .serve).ready = [] ∧
      Linear exec srv fds plan (fun _ => []) [] ((w.step exec (.connect fd)).step exec .serve) := by
  obtain ⟨srvNow, conns, sockets, backlog, ready, mc, sb⟩ := w
  have hb : backlog = [] := h.backlog
  simp only at hready
  subst hready hb
  simp only [Loop.step, Loop.wake, List.not_mem_nil, if_false, List.nil_append, Loop.acceptConnection,
    List.isEmpty_nil, if_true]
  split
  · exact ⟨rfl, h.of_eq exec rfl rfl rfl rfl⟩
  · have hlook : ∀ {α : Type} (l : List (Nat × α)) (x : α) (k : Nat),
        (eraseAt fd l ++ [(fd, x)]).lookup k = if k = fd then some x else l.lookup k := fun l x k => by
      rw [List.lookup_append, lookup_eraseAt]
      split
      · rename_i hk; subst hk; simp
      · rename_i hk; rw [lookup_single_ne hk, Option.or_none]
    rw [repoll_quiet (s := Socket.fresh sb) (by simp only []; rw [hlook, if_pos rfl]) rfl]
    refine ⟨rfl, h.update exec fd rfl h.server h.tagged (fun fd' hne => ⟨rfl, rfl, rfl, ?_, ?_⟩)
      (h.planned fd) fun c hc => ?_⟩
    · simp only []; rw [hlook, if_neg hne]
    · simp only []; rw [hlook, if_neg hne]
    · simp only [] at hc
      rw [hlook, if_pos rfl] at hc
      cases hc
      exact ⟨hfd, _, by simp only []; rw [hlook, if_pos rfl], serves_init _ _⟩

/-- The clients connect one after another, each accepted or refused before the next. -/
theorem Linear.connectAll : ∀ (gs : List Nat) {w : Loop σ}, (∀ fd ∈ gs, fd ∈ fds) → w.ready = [] →
    Linear exec srv fds plan (fun _ => []) [] w →
    Linear exec srv fds plan (fun _ => []) [] (w.run exec (connectAll gs))
  | [], _, _, _, h => h
  | fd :: gs, _, hgs, hready, h => by
    obtain ⟨hready', h'⟩ := h.connect exec hready (hgs fd (List.mem_cons_self _ _))
    exact Linear.connectAll gs (fun g hg => hgs g (List.mem_cons_of_mem _ hg)) hready' h'

/-! ## Every run -/

/-- INTERNAL: the session of an open connection, read off the invariant. -/
theorem Linear.serves_of_lookup {w : Loop σ} (h : Linear exec srv fds plan sent hist w) {fd : Nat}
    {c : Connection} {s : Socket} (hc : w.conns.lookup fd = some c) (hs : w.sockets.lookup fd = some s) :
    Serves (plan fd) (ofFd fd hist) (ofFd fd (replay (execCommand exec) srv hist).1) (sent fd) c s := by
  obtain ⟨-, s', hs', hsv⟩ := h.serves fd c hc
  rw [hs, Option.some.injEq] at hs'
  exact hs' ▸ hsv

/-- INTERNAL: the invariant after the clients connected and any run of actions. -/
theorem linear_run (srv : σ) (maxConnections sendBuffer : Nat) (fds : List Nat)
    (plan : Nat → List (Bytes × List Bytes)) (actions : List Action)
    (hcmds : ∀ fd ∈ fds, ∀ cmd ∈ plan fd, Fits cmd) (hconnect : ∀ a ∈ actions, ∀ fd, a ≠ .connect fd)
    (hsent : ∀ fd ∈ fds, sentBy fd actions <+: encodeCommands (plan fd)) :
    ∃ hist, Linear exec srv fds plan (fun fd => sentBy fd actions) hist
      ((init srv maxConnections sendBuffer).run exec (connectAll fds ++ actions)) := by
  obtain ⟨hist, -, h⟩ := ((linear_init exec srv maxConnections sendBuffer fds plan).connectAll exec fds
    (fun _ h => h) rfl).run exec hcmds actions hconnect (by simpa using hsent)
  have hrun : (init srv maxConnections sendBuffer).run exec (connectAll fds ++ actions) =
      ((init srv maxConnections sendBuffer).run exec (connectAll fds)).run exec actions :=
    List.foldl_append _ _ _ _
  rw [hrun]
  exact ⟨hist, by simpa using h⟩

/-- The clients on the descriptors `fds` connect to a fresh server one after another, and each is
accepted or refused; then the environment's actions come in any order, and each client sends a
prefix of the bytes of its own commands, each command one `std::stoi` accepts, over any executor.
At every point there is a history of the commands the server executed, in order, each tagged with
its client: the server's state is that of executing it; it holds only the clients' commands, and
each client's are the first of its own, in its order; and while a client's connection is open,
the bytes of its commands in the history followed by the buffer and the bytes still in its socket
are what it sent, and what `send` accepted on its socket followed by its output queue is the
responses its commands got in the history, in order. -/
theorem run_linearizes (srv : σ) (maxConnections sendBuffer : Nat) (fds : List Nat)
    (plan : Nat → List (Bytes × List Bytes)) (actions : List Action)
    (hcmds : ∀ fd ∈ fds, ∀ cmd ∈ plan fd, Fits cmd) (hconnect : ∀ a ∈ actions, ∀ fd, a ≠ .connect fd)
    (hsent : ∀ fd ∈ fds, sentBy fd actions <+: encodeCommands (plan fd)) :
    ∃ hist : List (Nat × (Bytes × List Bytes)),
      ((init srv maxConnections sendBuffer).run exec (connectAll fds ++ actions)).srv =
        (replay (execCommand exec) srv hist).2 ∧
      (∀ e ∈ hist, e.1 ∈ fds) ∧ (∀ fd, ofFd fd hist <+: plan fd) ∧
      ∀ fd c s, ((init srv maxConnections sendBuffer).run exec (connectAll fds ++ actions)).conns.lookup fd = some c →
        ((init srv maxConnections sendBuffer).run exec (connectAll fds ++ actions)).sockets.lookup fd = some s →
        encodeCommands (ofFd fd hist) ++ c.inputBuffer ++ s.unread = sentBy fd actions ∧
        s.delivered ++ c.outputQueue.flatten = (ofFd fd (replay (execCommand exec) srv hist).1).flatten := by
  obtain ⟨hist, h⟩ := linear_run exec srv maxConnections sendBuffer fds plan actions hcmds hconnect hsent
  exact ⟨hist, h.server, h.tagged, h.planned, fun fd c s hc hs =>
    ⟨(h.serves_of_lookup exec hc hs).buffer, (h.serves_of_lookup exec hc hs).responses⟩⟩

/-- Client `5` sends `SET k v` in two parts, and between them client `6` sends `GET k`, which the
server executes first. -/
theorem get_runs_between_set_halves :
    let plan := fun fd : Nat =>
      if fd = 5 then [(Request.set (ascii "k") (ascii "v")).command] else [(Request.get (ascii "k")).command]
    let actions := [Action.send 5 ((encodeCommands (plan 5)).take 10), .send 6 (encodeCommands (plan 6)),
      .serve, .serve, .send 5 ((encodeCommands (plan 5)).drop 10), .serve]
    let w := (init (StorageEngine.init 64) 8 65536).run (Server.executeCommand (HashTable.ops List.length) 0)
      (connectAll [5, 6] ++ actions)
    (∀ fd ∈ [5, 6], ∀ cmd ∈ plan fd, Fits cmd) ∧ (∀ a ∈ actions, ∀ fd, a ≠ .connect fd) ∧
      (∀ fd ∈ [5, 6], sentBy fd actions <+: encodeCommands (plan fd)) ∧
      ∃ hist : List (Nat × (Bytes × List Bytes)),
        w.srv = (replay (execCommand (Server.executeCommand (HashTable.ops List.length) 0))
          (StorageEngine.init 64) hist).2 ∧
        (∀ e ∈ hist, e.1 ∈ [5, 6]) ∧ (∀ fd, ofFd fd hist <+: plan fd) ∧
        ∀ fd c s, w.conns.lookup fd = some c → w.sockets.lookup fd = some s →
          encodeCommands (ofFd fd hist) ++ c.inputBuffer ++ s.unread = sentBy fd actions ∧
          s.delivered ++ c.outputQueue.flatten = (ofFd fd (replay (execCommand
            (Server.executeCommand (HashTable.ops List.length) 0)) (StorageEngine.init 64) hist).1).flatten :=
  have hcmds := by decide
  have hconnect := by simp
  have hsent := by decide
  ⟨hcmds, hconnect, hsent, run_linearizes _ _ _ _ _ _ _ hcmds hconnect hsent⟩

end Loop

/-! ## Over the storage engine -/

namespace KvMap

/-- The bytes a request writes: `key.size() + value.size()` for a `SET`. -/
def written : Request → Nat
  | .set k v => k.length + v.length
  | _ => 0

/-- The bytes the `SET`s among the requests write: the map holds no more after them than before
and these. -/
def writtenBytes (reqs : List Request) : Nat := (reqs.map written).sum

/-- INTERNAL: removing entries from a map shrinks its footprint. -/
theorem footprint_filter_le (m : KvMap) (p : Bytes × Bytes → Bool) :
    footprint (m.filter p) ≤ m.footprint := by
  induction m with
  | nil => exact le_rfl
  | cons q m ih =>
    by_cases hq : p q
    · rw [List.filter_cons_of_pos hq]; simp only [footprint]; omega
    · rw [List.filter_cons_of_neg hq]; simp only [footprint]; omega

/-- The map after requests holds no more than before them and what their `SET`s write. -/
theorem footprint_serve_le : ∀ (m : KvMap) (reqs : List Request),
    (m.serve reqs).2.footprint ≤ m.footprint + writtenBytes reqs
  | _, [] => Nat.le_add_right _ _
  | m, .set k v :: reqs => by
    have hrest := footprint_serve_le (m.set k v) reqs
    have hset : (m.set k v).footprint ≤ k.length + v.length + m.footprint := by
      have := footprint_filter_le m fun p => p.1 ≠ k
      simp only [set, footprint]
      omega
    show ((m.set k v).serve reqs).2.footprint ≤ _
    simp only [writtenBytes, List.map_cons, List.sum_cons, written] at hrest ⊢
    omega
  | m, .get k :: reqs => by
    simpa [writtenBytes, written] using footprint_serve_le m reqs
  | m, .del k :: reqs => by
    have hrest := footprint_serve_le (m.erase k) reqs
    have := footprint_filter_le m fun p => p.1 ≠ k
    show ((m.erase k).serve reqs).2.footprint ≤ _
    simp only [erase, writtenBytes, List.map_cons, List.sum_cons, written] at hrest ⊢
    omega

/-- INTERNAL: what the requests of a history write, counted client by client. -/
theorem writtenBytes_le_sum {fds : List Nat} : ∀ (order : List (Nat × Request)), (∀ e ∈ order, e.1 ∈ fds) →
    writtenBytes (order.map Prod.snd) ≤ (fds.map fun fd => writtenBytes (ofFd fd order)).sum
  | [], _ => Nat.zero_le _
  | (fd₀, req) :: order, h => by
    have ih := writtenBytes_le_sum order fun e he => h e (List.mem_cons_of_mem _ he)
    have hone : written req ≤ (fds.map fun fd => writtenBytes (if fd₀ = fd then [req] else [])).sum :=
      List.le_sum_of_mem (List.mem_map.2 ⟨fd₀, h _ (List.mem_cons_self _ _), by simp [writtenBytes]⟩)
    have hsplit : (fds.map fun fd => writtenBytes (ofFd fd ((fd₀, req) :: order))).sum =
        (fds.map fun fd => writtenBytes (if fd₀ = fd then [req] else [])).sum +
          (fds.map fun fd => writtenBytes (ofFd fd order)).sum := by
      rw [← List.sum_map_add]
      simp only [ofFd_cons, writtenBytes, List.map_append, List.sum_append]
    have hcons : writtenBytes (((fd₀, req) :: order).map Prod.snd) =
        written req + writtenBytes (order.map Prod.snd) := by
      simp only [writtenBytes, List.map_cons, List.sum_cons]
    rw [hcons, hsplit]
    omega

end KvMap

/-- Distinct requests send distinct commands. -/
theorem Request.command_injective : Function.Injective Request.command := by
  intro a b h
  cases a <;> cases b <;> simp_all [Request.command] <;> exact absurd h.1 (by decide)

/-- INTERNAL: a history of commands that are all requests' is the history of those requests. -/
theorem exists_requests : ∀ {hist : List (Nat × (Bytes × List Bytes))},
    (∀ e ∈ hist, ∃ r : Request, r.command = e.2) →
      ∃ order : List (Nat × Request), order.map (fun e => (e.1, e.2.command)) = hist
  | [], _ => ⟨[], rfl⟩
  | e :: _, h => by
    obtain ⟨r, hr⟩ := h e (List.mem_cons_self _ _)
    obtain ⟨order, ho⟩ := exists_requests fun e' he' => h e' (List.mem_cons_of_mem _ he')
    exact ⟨(e.1, r) :: order, by rw [List.map_cons, ho, hr]⟩

/-- INTERNAL: a prefix of the commands of requests is the commands of a prefix of them. -/
theorem prefix_of_map_command {a b : List Request} (h : a.map Request.command <+: b.map Request.command) :
    a <+: b := by
  rw [List.prefix_iff_eq_take, List.length_map, ← List.map_take] at h
  exact List.prefix_iff_eq_take.2 (List.map_injective_iff.2 Request.command_injective h)

namespace StorageEngine

variable {hash : Bytes → Nat} (now : Int)

/-- The requests of a history through `execute_command` in its order, over an engine that stands
for `m`, while the map after each fits the budget: each response is the encoding of the map's
answer, tagged with the same client. -/
theorem Simulates.replay {eng : StorageEngine (HashTable Bytes Entry)} {m : KvMap}
    (h : Simulates hash eng m) (order : List (Nat × Request))
    (hfit : ∀ n ≤ order.length, (m.serve ((order.map Prod.snd).take n)).2.footprint ≤ eng.maxMemory) :
    (BlinkDb.replay (Loop.execCommand (Server.executeCommand (HashTable.ops hash) now)) eng
        (order.map fun e => (e.1, e.2.command))).1 =
      (BlinkDb.replay KvMap.answer m order).1.map fun e => (e.1, RespProtocol.encode e.2) := by
  induction order generalizing eng m with
  | nil => rfl
  | cons e order ih =>
    obtain ⟨hr, hs, hmax⟩ := h.executeCommand now e.2 (hfit 1 (Nat.succ_le_succ (Nat.zero_le _)))
    have hfit' : ∀ n ≤ order.length,
        ((m.answer e.2).2.serve ((order.map Prod.snd).take n)).2.footprint ≤ eng.maxMemory :=
      fun n hn => hfit (n + 1) (Nat.succ_le_succ hn)
    simp only [List.map_cons, BlinkDb.replay, Loop.execCommand, hr, ih hs (hmax ▸ hfit')]

end StorageEngine

namespace Loop

/-- The clients on `fds` connect to a server over a freshly constructed storage engine, with any
hash function and budget, and each is accepted or refused; then the environment's actions come in
any order, and each client sends a prefix of the RESP-2 commands of its own key-value requests,
whose keys and values `std::stoi` accepts. If the clients' `SET`s together write no more bytes
than the budget, then at every point there is one order of the requests executed so far, holding
only the clients' requests and each client's the first of its own, in its order, such that every
client whose connection is open has sent the commands of its requests in that order followed by
its buffer and the bytes still in its socket, and has been sent, followed by its output queue, the
RESP-2 encoding of the answers the key-value map gives to its requests when it serves every
client's requests in that one order. -/
theorem loop_clients_see_one_map (hash : Bytes → Nat) (maxMemory : Nat) (now : Int)
    (maxConnections sendBuffer : Nat) (fds : List Nat) (reqs : Nat → List Request) (actions : List Action)
    (hreqs : ∀ fd ∈ fds, ∀ req ∈ reqs fd, Fits req.command)
    (hbudget : (fds.map fun fd => KvMap.writtenBytes (reqs fd)).sum ≤ maxMemory)
    (hconnect : ∀ a ∈ actions, ∀ fd, a ≠ .connect fd)
    (hsent : ∀ fd ∈ fds, sentBy fd actions <+: encodeCommands ((reqs fd).map Request.command)) :
    ∃ order : List (Nat × Request), (∀ e ∈ order, e.1 ∈ fds) ∧ (∀ fd, ofFd fd order <+: reqs fd) ∧
      ∀ fd c s, ((init (StorageEngine.init maxMemory) maxConnections sendBuffer).run
          (Server.executeCommand (HashTable.ops hash) now) (connectAll fds ++ actions)).conns.lookup fd = some c →
        ((init (StorageEngine.init maxMemory) maxConnections sendBuffer).run
          (Server.executeCommand (HashTable.ops hash) now) (connectAll fds ++ actions)).sockets.lookup fd = some s →
        encodeCommands ((ofFd fd order).map Request.command) ++ c.inputBuffer ++ s.unread = sentBy fd actions ∧
        s.delivered ++ c.outputQueue.flatten =
          ((ofFd fd (replay KvMap.answer [] order).1).map RespProtocol.encode).flatten := by
  obtain ⟨hist, h⟩ := linear_run (Server.executeCommand (HashTable.ops hash) now)
    (StorageEngine.init maxMemory) maxConnections sendBuffer fds (fun fd => (reqs fd).map Request.command) actions
    (fun fd hfd cmd hcmd => by
      obtain ⟨req, hreq, rfl⟩ := List.mem_map.1 hcmd
      exact hreqs fd hfd req hreq) hconnect hsent
  have hplan := h.planned
  obtain ⟨order, rfl⟩ := exists_requests fun e he => by
    obtain ⟨r, -, hr⟩ := List.mem_map.1 ((hplan e.1).subset (mem_ofFd he))
    exact ⟨r, hr⟩
  have hmine : ∀ fd, ofFd fd (order.map fun e => (e.1, e.2.command)) = (ofFd fd order).map Request.command :=
    fun fd => ofFd_map fd Request.command order
  have htag' : ∀ e ∈ order, e.1 ∈ fds := fun e he =>
    h.tagged _ (List.mem_map.2 ⟨e, he, rfl⟩)
  have hplan' : ∀ fd, ofFd fd order <+: reqs fd := fun fd =>
    prefix_of_map_command (hmine fd ▸ hplan fd)
  have hfit : ∀ n ≤ order.length,
      (KvMap.serve [] ((order.map Prod.snd).take n)).2.footprint ≤ (StorageEngine.init maxMemory).maxMemory :=
    fun n _ => calc
      _ ≤ KvMap.writtenBytes ((order.map Prod.snd).take n) := by
        simpa [KvMap.footprint] using KvMap.footprint_serve_le [] ((order.map Prod.snd).take n)
      _ ≤ KvMap.writtenBytes (order.map Prod.snd) := by
        conv_rhs => rw [← List.take_append_drop n (order.map Prod.snd)]
        simp only [KvMap.writtenBytes, List.map_append, List.sum_append]
        omega
      _ ≤ (fds.map fun fd => KvMap.writtenBytes (ofFd fd order)).sum := KvMap.writtenBytes_le_sum order htag'
      _ ≤ (fds.map fun fd => KvMap.writtenBytes (reqs fd)).sum := List.sum_le_sum fun fd _ => by
        obtain ⟨t, ht⟩ := hplan' fd
        simp only [← ht, KvMap.writtenBytes, List.map_append, List.sum_append]
        omega
      _ ≤ maxMemory := hbudget
  refine ⟨order, htag', hplan', fun fd c s hc hs => ?_⟩
  have hsv := h.serves_of_lookup _ hc hs
  refine ⟨by rw [← hmine]; exact hsv.buffer, ?_⟩
  rw [hsv.responses, (StorageEngine.simulates_init maxMemory).replay now order hfit, ofFd_map]

/-- Client `5` writes `k` and client `6` reads it back, each in one `send`, over a budget of
`64` bytes. -/
theorem clients_set_and_get_one_map :
    let reqs := fun fd : Nat =>
      if fd = 5 then [Request.set (ascii "k") (ascii "v")] else [Request.get (ascii "k")]
    let actions := [Action.send 5 (encodeCommands ((reqs 5).map Request.command)),
      .send 6 (encodeCommands ((reqs 6).map Request.command)), .serve, .serve]
    let w := (init (StorageEngine.init 64) 8 65536).run (Server.executeCommand (HashTable.ops List.length) 0)
      (connectAll [5, 6] ++ actions)
    (∀ fd ∈ [5, 6], ∀ req ∈ reqs fd, Fits req.command) ∧
      ([5, 6].map fun fd => KvMap.writtenBytes (reqs fd)).sum ≤ 64 ∧
      (∀ a ∈ actions, ∀ fd, a ≠ .connect fd) ∧
      (∀ fd ∈ [5, 6], sentBy fd actions <+: encodeCommands ((reqs fd).map Request.command)) ∧
      ∃ order : List (Nat × Request), (∀ e ∈ order, e.1 ∈ [5, 6]) ∧ (∀ fd, ofFd fd order <+: reqs fd) ∧
        ∀ fd c s, w.conns.lookup fd = some c → w.sockets.lookup fd = some s →
          encodeCommands ((ofFd fd order).map Request.command) ++ c.inputBuffer ++ s.unread =
              sentBy fd actions ∧
            s.delivered ++ c.outputQueue.flatten =
              ((ofFd fd (replay KvMap.answer [] order).1).map RespProtocol.encode).flatten :=
  have hreqs := by decide
  have hbudget := by decide
  have hconnect := by simp
  have hsent := by decide
  ⟨hreqs, hbudget, hconnect, hsent,
    loop_clients_see_one_map _ _ _ _ _ _ _ _ hreqs hbudget hconnect hsent⟩

end Loop

end BlinkDb
