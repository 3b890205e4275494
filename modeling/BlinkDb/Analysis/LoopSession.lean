import BlinkDb.Analysis.LoopInvariant
import BlinkDb.Analysis.EndToEnd

/-!
# One client's session through the event loop

`BlinkDb.Analysis.Framing` follows one connection through the calls of `handle_read` and
`handle_write`. Here the same session runs through the whole event loop. The client connects
once, and then the environment's actions come in any order: the client's segments, its
acknowledgements, its `FIN` or a reset, and the entries of epoll's ready list, served one at a
time. The calls the loop makes on the connection are the calls of a run of `ConnWorld`, with
`recv` returning at most `MAX_READ_SIZE` bytes and `send` taking what the send buffer has room
for or failing with `EAGAIN`.

`Session` is the invariant: the connection is closed for good, or it is the only one and frames
the bytes `recv` has returned, which followed by the bytes still in the socket are the bytes the
client sent. `Session.step` is the step lemma, one case per action, and `Session.run` carries it
along a run. So whatever the interleaving, while the connection is open, the commands whose
bytes `recv` has returned have been executed once each and in order, the rest of the client's
bytes wait in the buffer or the socket, and what `send` accepted followed by the output queue is
the commands' responses in order (`loop_session_frames`). Over the storage engine these are the
answers of the key-value map (`loop_serves_kv`). A response may stay in the queue with no event
left to send it, but none is lost, repeated or reordered.
-/

set_option autoImplicit false

namespace BlinkDb

open Connection (Fits encodeCommands runCommands)
open ConnWorld (Framed)

/-! ## Tables of one descriptor -/

section Tables

variable {α : Type} {fd fd' : Nat} {f : α → α} {x : α}

/-- INTERNAL: changing the one entry of a one-entry table. -/
@[simp] theorem updateAt_single_self : updateAt fd f [(fd, x)] = [(fd, f x)] := by
  simp [updateAt]

/-- INTERNAL: changing another descriptor's entry changes nothing. -/
theorem updateAt_single_ne (h : fd' ≠ fd) : updateAt fd' f [(fd, x)] = [(fd, x)] := by
  simp [updateAt, Ne.symm h]

/-- INTERNAL: removing the one entry. -/
@[simp] theorem eraseAt_single_self : eraseAt fd [(fd, x)] = [] := by
  simp [eraseAt]

/-- INTERNAL: removing another descriptor's entry changes nothing. -/
theorem eraseAt_single_ne (h : fd' ≠ fd) : eraseAt fd' [(fd, x)] = [(fd, x)] := by
  simp [eraseAt, Ne.symm h]

/-- INTERNAL: the one entry's value. -/
@[simp] theorem lookup_single_self : [(fd, x)].lookup fd = some x := by
  simp

/-- INTERNAL: no other descriptor has an entry. -/
theorem lookup_single_ne (h : fd' ≠ fd) : [(fd, x)].lookup fd' = none := by
  simp [h]

end Tables

namespace Loop

variable {σ : Type} (exec : Executor σ)

/-- The bytes the client of `fd` sends over a run, in order. -/
def sentBy (fd : Nat) : List Action → Bytes
  | [] => []
  | .send fd' bytes :: as => (if fd' = fd then bytes else []) ++ sentBy fd as
  | _ :: as => sentBy fd as

/-- The loop's side of the session of the client on `fd`, after the client sent `sent`. No
connection waits for `accept`. Either the connection is closed for good, or it is the only one:
`recv` has returned `consumed`, which followed by the bytes still in the socket is `sent`, and
the connection, with what `send` accepted, frames `consumed`. -/
inductive Session (srv : σ) (cmds : List (Bytes × List Bytes)) (fd : Nat) (sent : Bytes) :
    Loop σ → Prop
  | closed {w : Loop σ} : w.backlog = [] → w.conns = [] → w.sockets = [] →
      Session srv cmds fd sent w
  | active {w : Loop σ} (c : Connection) (s : Socket) (consumed : Bytes) (k : Nat) :
      w.backlog = [] → w.conns = [(fd, c)] → w.sockets = [(fd, s)] → consumed ++ s.unread = sent →
      Framed exec srv cmds consumed k ⟨c, w.srv, s.delivered⟩ → Session srv cmds fd sent w

variable {srv : σ} {cmds : List (Bytes × List Bytes)} {fd : Nat} {sent : Bytes}

/-- Changing a socket's flags, not its bytes, keeps the session. -/
theorem Session.flags {w w' : Loop σ} (h : Session exec srv cmds fd sent w) (fd' : Nat)
    (f : Socket → Socket) (hf : ∀ s, (f s).unread = s.unread ∧ (f s).delivered = s.delivered)
    (hb : w'.backlog = w.backlog) (hc : w'.conns = w.conns) (hsrv : w'.srv = w.srv)
    (hs : w'.sockets = updateAt fd' f w.sockets) : Session exec srv cmds fd sent w' := by
  cases h with
  | closed hb₀ hc₀ hs₀ => exact .closed (hb.trans hb₀) (hc.trans hc₀) (by rw [hs, hs₀]; rfl)
  | active c s consumed k hb₀ hc₀ hs₀ hsent hfr =>
    by_cases hfd : fd' = fd
    · subst hfd
      refine .active c (f s) consumed k (hb.trans hb₀) (hc.trans hc₀)
        (by rw [hs, hs₀, updateAt_single_self]) (by rw [(hf s).1, hsent]) ?_
      rw [hsrv, (hf s).2]; exact hfr
    · exact .active c s consumed k (hb.trans hb₀) (hc.trans hc₀)
        (by rw [hs, hs₀, updateAt_single_ne hfd]) hsent (hsrv ▸ hfr)

/-- No connection waits for `accept` during a session. -/
theorem Session.backlog {w : Loop σ} (h : Session exec srv cmds fd sent w) : w.backlog = [] := by
  cases h <;> assumption

/-- A state with the same connections, sockets, backlog and server state keeps the session. -/
theorem Session.of_eq {w w' : Loop σ} (h : Session exec srv cmds fd sent w)
    (hb : w'.backlog = w.backlog) (hc : w'.conns = w.conns) (hs : w'.sockets = w.sockets)
    (hsrv : w'.srv = w.srv) : Session exec srv cmds fd sent w' := by
  cases h with
  | closed hb₀ hc₀ hs₀ => exact .closed (hb.trans hb₀) (hc.trans hc₀) (hs.trans hs₀)
  | active c s consumed k hb₀ hc₀ hs₀ hsent hfr =>
    exact .active c s consumed k (hb.trans hb₀) (hc.trans hc₀) (hs.trans hs₀) hsent (hsrv ▸ hfr)

/-- A wake-up only queues an entry. -/
theorem Session.wake {w : Loop σ} (h : Session exec srv cmds fd sent w) (e : Ready) :
    Session exec srv cmds fd sent (w.wake e) := by
  unfold Loop.wake; split
  · exact h
  · exact h.of_eq exec rfl rfl rfl rfl

/-- So does polling a socket. -/
theorem Session.repoll {w : Loop σ} (h : Session exec srv cmds fd sent w) (fd' : Nat) :
    Session exec srv cmds fd sent (w.repoll fd') := by
  unfold Loop.repoll; split
  · split
    · exact h.wake exec _
    · exact h
  · exact h

/-- `EPOLL_CTL_MOD` keeps the session. -/
theorem Session.modify {w : Loop σ} (h : Session exec srv cmds fd sent w) (fd' : Nat) (out : Bool) :
    Session exec srv cmds fd sent (w.modify fd' out) := by
  refine Session.repoll exec ?_ fd'
  exact h.flags exec fd' (fun s => { s with wantsWrite := out }) (fun _ => ⟨rfl, rfl⟩) rfl rfl rfl rfl

/-- Changing a socket's flags, registered or not, and waking it, keeps the session. -/
theorem Session.updateSocket_wake {w : Loop σ} (h : Session exec srv cmds fd sent w) (fd' : Nat)
    (f : Socket → Socket) (hf : ∀ s, (f s).unread = s.unread ∧ (f s).delivered = s.delivered)
    (b : Bool) :
    Session exec srv cmds fd sent
      (if b then (w.updateSocket fd' f).wake (.client fd') else w.updateSocket fd' f) := by
  have hu : Session exec srv cmds fd sent (w.updateSocket fd' f) := by
    unfold Loop.updateSocket; split
    · exact h.flags exec fd' f hf rfl rfl rfl rfl
    · exact h.of_eq exec (by simp [h.backlog exec, updateAt]) rfl rfl rfl
  split
  · exact hu.wake exec _
  · exact hu

/-- `close_connection` of the client's descriptor ends the session for good. -/
theorem Session.closeConnection {w : Loop σ} (h : Session exec srv cmds fd sent w) :
    Session exec srv cmds fd sent (w.closeConnection fd) := by
  cases h with
  | closed hb hc hs =>
    exact .closed hb (by simp [Loop.closeConnection, hc, eraseAt]) (by simp [Loop.closeConnection, hs, eraseAt])
  | active c s consumed k hb hc hs _ _ =>
    exact .closed hb (by simp [Loop.closeConnection, hc]) (by simp [Loop.closeConnection, hs])

/-- The read branch of `handle_event` on the open connection: one `recv`, then `handle_read`,
which is a read of the connection's run when `recv` returned bytes, changes nothing when it
failed with `EAGAIN`, and closes the connection at the end of the stream. The session goes on,
or the connection closes. -/
theorem Session.readEvent (hcmds : ∀ cmd ∈ cmds, Fits cmd) {w : Loop σ} {c : Connection}
    {s : Socket} {consumed : Bytes} {k : Nat} (hb : w.backlog = []) (hc : w.conns = [(fd, c)])
    (hs : w.sockets = [(fd, s)]) (hsent : consumed ++ s.unread = sent)
    (hf : Framed exec srv cmds consumed k ⟨c, w.srv, s.delivered⟩) (hpre : sent <+: encodeCommands cmds) :
    Session exec srv cmds fd sent (w.readEvent exec fd c s).2 := by
  obtain ⟨srv', conns, sockets, backlog, ready, mc, sb⟩ := w
  simp only at hb hc hs hf
  subst hb hc hs
  have hconn : c.state = .connected := hf.connected
  have hclosed : ∀ w' : Loop σ, w'.backlog = [] → w'.conns = [(fd, c)] → (∃ s', w'.sockets = [(fd, s')]) →
      Session exec srv cmds fd sent (w'.closeConnection fd) := fun w' hb hc ⟨s', hs⟩ =>
    .closed hb (by simp [Loop.closeConnection, hc]) (by simp [Loop.closeConnection, hs])
  by_cases hu : s.unread = []
  · by_cases heof : s.eof = true
    · have hr : c.handleRead exec srv' s.recvResult = (false, { c with state := .closing }, srv') := by
        simp [Socket.recvResult, hu, heof, Connection.handleRead, hconn]
      simp only [Loop.readEvent, hr, Bool.false_eq_true, if_false, updateAt_single_self]
      exact hclosed _ rfl rfl ⟨_, rfl⟩
    · have hr : c.handleRead exec srv' s.recvResult = (true, c, srv') := by
        simp [Socket.recvResult, hu, heof, Connection.handleRead, hconn]
      simp only [Loop.readEvent, hr, if_true, updateAt_single_self]
      have hw : Session exec srv cmds fd sent
          ⟨srv', [(fd, c)], [(fd, { s with unread := s.unread.drop maxReadSize })], [], ready, mc, sb⟩ :=
        .active c _ consumed k rfl rfl rfl (by rw [← hsent, hu]; rfl) hf
      split
      · exact hw.modify exec fd true
      · exact hw
  · have hne : s.unread.take maxReadSize ≠ [] := by simpa [maxReadSize] using hu
    have hrecv : s.recvResult = .bytes (s.unread.take maxReadSize) := by
      simp [Socket.recvResult, hu]
    generalize hr : c.handleRead exec srv' (.bytes (s.unread.take maxReadSize)) = out
    obtain ⟨b, c', srv''⟩ := out
    simp only [Loop.readEvent, hrecv, hr, updateAt_single_self]
    by_cases hg : c.inputBuffer.length + (s.unread.take maxReadSize).length ≤ maxInputBufferSize
    · have hpre' : consumed ++ s.unread.take maxReadSize <+: encodeCommands cmds :=
        ((List.prefix_append_right_inj consumed).2 (List.take_prefix _ _)).trans (hsent ▸ hpre)
      obtain ⟨w', k', hstep, hf'⟩ := hf.read exec hcmds hne hg hpre'
      simp only [ConnWorld.step, hr] at hstep
      split at hstep
      · cases hstep
        rename_i hb
        simp only [hb, if_true]
        have hw : Session exec srv cmds fd sent
            ⟨srv'', [(fd, c')], [(fd, { s with unread := s.unread.drop maxReadSize })], [], ready, mc, sb⟩ :=
          .active c' _ _ k' rfl rfl rfl (by rw [List.append_assoc, List.take_append_drop, hsent]) hf'
        split
        · exact hw.modify exec fd true
        · exact hw
      · cases hstep
    · have hfalse : b = false := by
        obtain ⟨x, xs, hx⟩ := List.exists_cons_of_ne_nil hne
        rw [hx] at hg hr
        simp only [Connection.handleRead, hconn, ne_eq, not_true_eq_false, if_false] at hr
        rw [if_pos (by omega)] at hr
        exact (congrArg Prod.fst hr).symm
      simp only [hfalse, Bool.false_eq_true, if_false]
      exact hclosed _ rfl rfl ⟨_, rfl⟩

/-- What the write branch of `handle_event` passes to `handle_write` is an outcome the run of the
connection allows, unless `handle_write` closes the connection: `send` takes between one byte and
the whole front message, as much as the send buffer has room for, or fails with `EAGAIN`;
`handle_write` refuses a `send` that took nothing. -/
theorem allowed_writeEvent {c : Connection} {srv' : σ} {delivered : Bytes} {s : Socket}
    (hconn : c.state = .connected) (hw : (c.handleWrite (s.sendResult (c.outputQueue.headD []))).1 = true) :
    ConnWorld.allowed ⟨c, srv', delivered⟩ (.write (s.sendResult (c.outputQueue.headD []))) = true := by
  unfold Socket.sendResult at hw ⊢
  split
  · rfl
  · rename_i hroom
    rcases hq : c.outputQueue with _ | ⟨message, rest⟩
    · simp [ConnWorld.allowed, hq]
    · have hm : message ≠ [] := by
        rintro rfl
        simp [Connection.handleWrite, hconn, hq, hroom] at hw
      simp only [ConnWorld.allowed, hq, List.headD_cons, decide_eq_true_eq]
      have := List.length_pos.2 hm
      exact ⟨by omega, Nat.min_le_right _ _⟩

/-- The write branch of `handle_event` on the open connection: `send` of the front message, then
`handle_write`, which is a write of the connection's run. The session goes on, or the connection
closes. -/
theorem Session.writeEvent {w : Loop σ} {c : Connection} {s : Socket} {consumed : Bytes} {k : Nat}
    (hb : w.backlog = []) (hc : w.conns = [(fd, c)]) (hs : w.sockets = [(fd, s)])
    (hsent : consumed ++ s.unread = sent) (hf : Framed exec srv cmds consumed k ⟨c, w.srv, s.delivered⟩) :
    Session exec srv cmds fd sent (w.writeEvent fd c s) := by
  obtain ⟨srv', conns, sockets, backlog, ready, mc, sb⟩ := w
  simp only at hb hc hs hf
  subst hb hc hs
  have hconn : c.state = .connected := hf.connected
  unfold Loop.writeEvent
  by_cases hw : (c.handleWrite (s.sendResult (c.outputQueue.headD []))).1 = true
  · obtain ⟨w', hstep, hf'⟩ := hf.write exec (allowed_writeEvent hconn hw)
    generalize s.sendResult (c.outputQueue.headD []) = r at hw hstep
    dsimp only
    rw [if_pos hw]
    simp only [ConnWorld.step, hw, if_true, Option.some.injEq] at hstep
    subst hstep
    have hsn : Session exec srv cmds fd sent ⟨srv', updateAt fd (fun _ => _) [(fd, c)],
        updateAt fd (fun s => { s with room := s.room - (ConnWorld.accepted c r).length,
                                       delivered := s.delivered ++ ConnWorld.accepted c r })
          [(fd, s)], [], ready, mc, sb⟩ :=
      .active _ _ consumed k rfl updateAt_single_self updateAt_single_self hsent hf'
    split
    · exact hsn
    · exact hsn.modify exec fd false
  · dsimp only
    rw [if_neg hw]
    exact .closed rfl (by simp [Loop.closeConnection]) (by simp [Loop.closeConnection])

/-- `handle_event` keeps the session, whatever the descriptor and the flags: an event for
another descriptor only closes that descriptor, and on the client's own descriptor the read and
the write branches are calls of the connection's run. -/
theorem Session.handleEvent (hcmds : ∀ cmd ∈ cmds, Fits cmd) {w : Loop σ}
    (h : Session exec srv cmds fd sent w) (hpre : sent <+: encodeCommands cmds) (fd' : Nat)
    (flags : Flags) : Session exec srv cmds fd sent (w.handleEvent exec fd' flags) := by
  cases h with
  | closed hb hc hs =>
    unfold Loop.handleEvent
    simp only [hc, List.lookup_nil]
    exact .closed hb rfl (by simp [hs, eraseAt])
  | active c s consumed k hb hc hs hsent hf =>
    unfold Loop.handleEvent
    by_cases hfd : fd' = fd
    · subst hfd
      rw [hc, hs]
      simp only [lookup_single_self]
      split
      · exact (Session.active c s consumed k hb hc hs hsent hf).closeConnection exec
      · generalize hr : (if flags.readable then w.readEvent exec fd' c s else (true, w)) = r
        have hsr : Session exec srv cmds fd' sent r.2 := by
          rw [← hr]; split
          · exact Session.readEvent exec hcmds hb hc hs hsent hf hpre
          · exact .active c s consumed k hb hc hs hsent hf
        split
        · cases hsr with
          | closed hb' hc' hs' => rw [hc']; exact .closed hb' hc' hs'
          | active c' s' consumed' k' hb' hc' hs' hsent' hf' =>
            simp only [hc', hs', lookup_single_self]
            exact Session.writeEvent exec hb' hc' hs' hsent' hf'
        · exact hsr
    · simp only [hc, lookup_single_ne hfd]
      exact .active c s consumed k hb rfl (by rw [hs, eraseAt_single_ne hfd]) hsent hf

/-- INTERNAL: the bytes of a run, action by action. -/
theorem sentBy_cons (fd : Nat) (a : Action) (as : List Action) :
    sentBy fd (a :: as) = sentBy fd [a] ++ sentBy fd as := by
  cases a <;> simp [sentBy]

/-- Every action other than a new connection keeps the session, with the bytes the client sends
appended to `sent`. -/
theorem Session.step (hcmds : ∀ cmd ∈ cmds, Fits cmd) {w : Loop σ}
    (h : Session exec srv cmds fd sent w) (a : Action) (ha : ∀ fd', a ≠ .connect fd')
    (hpre : sent ++ sentBy fd [a] <+: encodeCommands cmds) :
    Session exec srv cmds fd (sent ++ sentBy fd [a]) (w.step exec a) := by
  cases a with
  | connect fd' => exact absurd rfl (ha fd')
  | send fd' bytes =>
    simp only [sentBy, List.append_nil] at hpre ⊢
    rw [Loop.step]
    by_cases hbytes : bytes = []
    · simp only [hbytes, if_true, List.append_nil, ite_self]
      exact h
    rw [if_neg hbytes]
    dsimp only
    cases h with
    | closed hb hc hs =>
      simp only [Loop.updateSocket, hs, List.lookup_nil, Option.isSome_none, Bool.false_eq_true,
        if_false, hb, updateAt]
      exact .closed rfl hc rfl
    | active c s consumed k hb hc hs hsent hf =>
      by_cases hfd : fd' = fd
      · subst hfd
        simp only [Loop.updateSocket, hs, lookup_single_self, Option.isSome_some, if_true,
          updateAt_single_self]
        refine Session.wake exec ?_ _
        exact .active c _ consumed k hb hc rfl (by rw [← List.append_assoc, hsent]) hf
      · simp only [hfd, if_false, List.append_nil, Loop.updateSocket, hs, lookup_single_ne hfd,
          Option.isSome_none, Bool.false_eq_true, hb, updateAt]
        exact .active c s consumed k rfl hc rfl hsent hf
  | drain fd' n =>
    simp only [sentBy, List.append_nil]
    have hu := h.updateSocket_wake exec fd' (fun s => { s with room := s.room + n }) (fun _ => ⟨rfl, rfl⟩)
    rw [Loop.step]
    split
    · split
      · exact hu true
      · exact hu false
    · exact hu false
  | hangup fd' =>
    simp only [sentBy, List.append_nil]
    exact h.updateSocket_wake exec fd' (fun s => { s with eof := true }) (fun _ => ⟨rfl, rfl⟩) _
  | reset fd' =>
    simp only [sentBy, List.append_nil]
    exact h.updateSocket_wake exec fd' (fun s => { s with reset := true }) (fun _ => ⟨rfl, rfl⟩) _
  | serve =>
    simp only [sentBy, List.append_nil] at hpre ⊢
    rw [Loop.step]
    split
    · exact h
    · unfold Loop.acceptConnection
      simp only [h.backlog exec]
      exact h.of_eq exec (h.backlog exec).symm rfl rfl rfl
    · split
      · split
        · refine Session.handleEvent exec hcmds ?_ hpre _ _
          exact h.of_eq exec rfl rfl rfl rfl
        · exact h.of_eq exec rfl rfl rfl rfl
      · exact h.of_eq exec rfl rfl rfl rfl

/-- The session along a run of actions with no new connection. -/
theorem Session.run (hcmds : ∀ cmd ∈ cmds, Fits cmd) :
    ∀ (actions : List Action) {w : Loop σ} {sent : Bytes}, Session exec srv cmds fd sent w →
      (∀ a ∈ actions, ∀ fd', a ≠ .connect fd') → sent ++ sentBy fd actions <+: encodeCommands cmds →
      Session exec srv cmds fd (sent ++ sentBy fd actions) (w.run exec actions)
  | [], _, _, h, _, _ => by simpa [sentBy] using h
  | a :: as, w, sent, h, ha, hpre => by
    rw [sentBy_cons, ← List.append_assoc] at hpre ⊢
    exact Session.run hcmds as
      (h.step exec hcmds a (ha a (List.mem_cons_self _ _)) ((List.prefix_append _ _).trans hpre))
      (fun b hb => ha b (List.mem_cons_of_mem _ hb)) hpre

end Loop

end BlinkDb
