import BlinkDb.Analysis.LoopProgress

/-!
# Clients that wait for their replies are all answered

`Client::execute` sends one command and blocks in `recv` until its reply has come. Here any
number of such clients use the event loop at once, in any interleaving. They connect at any
time, each on a descriptor of its own (`connects`). Each sends one whole command of at most
`MAX_READ_SIZE` bytes only when nothing it sent before is left unread in its socket or queued on
its connection, before `accept` too (`waitsForReply`). Their sockets fill and drain, `FIN`s and
`RST`s arrive, and the server serves the queued entries one at a time, stale ones included.

The invariant `Waiting` is stated over a ghost history: the commands the server has executed, in
order, each tagged with its client. The server's state is that of executing it, and each client's
executed commands are a prefix of what it sent. A connection waiting for `accept` holds all its
client sent, nothing or one command, and has executed nothing (`Backlogged`). Each open
connection has at most one thing outstanding (`Outstanding`): nothing, a command in its socket
with its entry queued, or one reply, or the rest of one, in its queue with `EPOLLOUT` registered
and its entry queued while the send buffer has room. Its books (`Ledger`) say that what it
executed, followed by what waits in its socket, is what its client sent, and that what `send`
took, followed by its queue, is the replies to what it executed. Every action keeps the
invariant (`Waiting.step`), the `EPOLLIN` event of a command adding that command to the history.

Each served entry lowers the work left in epoll's queue (`work`: two for a socket with bytes to
read, whose event may queue it again for the reply, one for any other, and for the listening
socket one and three for each connection waiting for `accept`). So serving twice as many entries
as are queued, and three times as many as connections wait, empties the queue (`Waiting.serves`).
With the queue empty the invariant leaves nothing to do (`Waiting.quiet`): no connection waits
for `accept`, and every open connection has executed all its client sent and has sent it every
reply, but for the rest of one while the send buffer is full (`waiting_clients_go_quiet`). A
connection that a `FIN` or an `RST` closed, or that `accept` refused, has executed a prefix of
what its client sent. A `FIN` that arrives while a reply is queued closes the connection before
the reply has gone: the read branch of `handle_event` runs first, and `recv` returns `0`.

Pipelining breaks this: two commands in one `send` can leave a reply queued with no event to
send it (`BlinkDb.Analysis.ServerLoop`), and a command longer than `MAX_READ_SIZE` can be left
half read (`BlinkDb.Analysis.LoopProgress`).
-/

set_option autoImplicit false

open scoped List

namespace BlinkDb

open HashTable (keys)
open Connection (Fits encodeCommands runCommands)
open Client (encodeCommand)

/-! ## Tables with a descriptor added or absent -/

section Tables

variable {α : Type} {fd : Nat}

/-- INTERNAL: an update of a descriptor that is not there changes nothing. -/
theorem updateAt_of_lookup_none {f : α → α} :
    ∀ {l : List (Nat × α)}, l.lookup fd = none → updateAt fd f l = l
  | [], _ => rfl
  | (k, v) :: rest, h => by
    rw [HashTable.lookup_cons_pair] at h
    split at h
    · cases h
    · rename_i hk
      simp only [updateAt, Ne.symm hk, if_false, updateAt_of_lookup_none h]

/-- INTERNAL: a descriptor that `lookup` finds is in the table. -/
theorem mem_keys_of_lookup {l : List (Nat × α)} {x : α} (h : l.lookup fd = some x) : fd ∈ keys l := by
  by_contra hk
  rw [(HashTable.lookup_eq_none_iff l fd).2 hk] at h
  cases h

/-- INTERNAL: an entry appended to a table is found unless its descriptor was there before. -/
theorem lookup_append_single (l : List (Nat × α)) (x : α) (k : Nat) :
    (l ++ [(fd, x)]).lookup k = (l.lookup k).or (if k = fd then some x else none) := by
  induction l with
  | nil => by_cases hk : k = fd <;> simp [hk]
  | cons p l ih =>
    obtain ⟨a, b⟩ := p
    by_cases hk : k = a <;> simp [hk, ih]

/-- INTERNAL: a descriptor registered afresh, as `accept_connection` does. -/
theorem lookup_eraseAt_append (l : List (Nat × α)) (x : α) (k : Nat) :
    (eraseAt fd l ++ [(fd, x)]).lookup k = if k = fd then some x else l.lookup k := by
  rw [lookup_append_single, lookup_eraseAt]
  by_cases hk : k = fd <;> simp [hk]

/-- INTERNAL: a history without a descriptor's entries gives it no replies. -/
theorem ofFd_replay_nil {σ β : Type} (f : σ → α → β × σ) :
    ∀ (s : σ) (hist : List (Nat × α)), ofFd fd hist = [] → ofFd fd (replay f s hist).1 = []
  | _, [], _ => rfl
  | s, e :: es, h => by
    rw [ofFd_cons, List.append_eq_nil] at h
    simp only [replay, ofFd_cons, ofFd_replay_nil f _ es h.2, List.append_nil]
    split
    · rename_i he; simp [he] at h
    · rfl

end Tables

namespace Loop

variable {σ : Type} (exec : Executor σ)

/-! ## Waking an entry -/

/-- INTERNAL: a wake-up changes only the ready list. -/
theorem wake_eq (w : Loop σ) (e : Ready) : w.wake e = { w with ready := (w.wake e).ready } := by
  unfold wake; split <;> rfl

/-- INTERNAL: the entries queued after a wake-up. -/
theorem mem_wake {w : Loop σ} {e x : Ready} : x ∈ (w.wake e).ready ↔ x ∈ w.ready ∨ x = e := by
  by_cases he : e ∈ w.ready
  · rw [wake_of_mem he]
    exact ⟨.inl, fun h => h.elim id fun hx => hx ▸ he⟩
  · rw [wake_of_not_mem he]
    simp

/-- INTERNAL: a wake-up queues each entry once. -/
theorem nodup_wake {w : Loop σ} (h : w.ready.Nodup) (e : Ready) : (w.wake e).ready.Nodup := by
  by_cases he : e ∈ w.ready
  · rw [wake_of_mem he]; exact h
  · rw [wake_of_not_mem he]
    exact h.append (List.nodup_singleton e) (List.disjoint_singleton.2 he)

/-- INTERNAL: a wake-up that happens when `b` changes only the ready list. -/
theorem wake_if_eq (w : Loop σ) (e : Ready) (b : Bool) :
    (if b then w.wake e else w) = { w with ready := (if b then w.wake e else w).ready } := by
  cases b
  · rfl
  · exact wake_eq w e

/-- INTERNAL: the entries queued after a wake-up that happens when `b`. -/
theorem mem_wake_if {w : Loop σ} {e x : Ready} (b : Bool) :
    x ∈ (if b then w.wake e else w).ready ↔ x ∈ w.ready ∨ (b = true ∧ x = e) := by
  cases b
  · simp
  · simpa using mem_wake

/-- INTERNAL: a wake-up that happens when `b` queues each entry once. -/
theorem nodup_wake_if {w : Loop σ} (h : w.ready.Nodup) (e : Ready) (b : Bool) :
    (if b then w.wake e else w).ready.Nodup := by
  cases b
  · exact h
  · exact nodup_wake h e

/-! ## What a waiting client leaves outstanding -/

/-- The bytes of one whole command that fits the framer and has at most `MAX_READ_SIZE` bytes:
what a waiting client sends at a time. -/
def Whole (bytes : Bytes) : Prop :=
  ∃ cmd : Bytes × List Bytes, Fits cmd ∧ bytes = encodeCommand cmd.1 cmd.2 ∧
    bytes.length ≤ maxReadSize

/-- INTERNAL: a whole command has bytes. -/
theorem Whole.ne_nil {bytes : Bytes} (h : Whole bytes) : bytes ≠ [] := by
  obtain ⟨cmd, -, rfl, -⟩ := h
  simp [encodeCommand]

/-- What an open connection `c` of a waiting client, with socket `s`, has outstanding; `queued`
is whether the socket's entry is on epoll's ready list. -/
inductive Outstanding (queued : Prop) : Connection → Socket → Prop
  /-- Nothing: the connection is idle, the socket holds nothing unread, `EPOLLOUT` is not
  registered, and once a `FIN` or an `RST` has arrived the entry is queued. -/
  | idle {s : Socket} : s.unread = [] → s.wantsWrite = false →
      (s.eof = true ∨ s.reset = true → queued) → Outstanding queued Connection.init s
  /-- A command: its bytes wait in the socket, and the entry is queued. -/
  | request {s : Socket} : Whole s.unread → s.wantsWrite = false → queued →
      Outstanding queued Connection.init s
  /-- A reply, or the rest of one: the only message queued, with nothing unread and `EPOLLOUT`
  registered; while the send buffer has room, or once a `FIN` or an `RST` has arrived, the
  entry is queued. -/
  | reply {s : Socket} {r : Bytes} : r ≠ [] → s.unread = [] → s.wantsWrite = true →
      (0 < s.room ∨ s.eof = true ∨ s.reset = true → queued) →
      Outstanding queued ⟨.connected, [], [r]⟩ s

namespace Outstanding

variable {p q : Prop} {c : Connection} {s : Socket}

/-- INTERNAL: queueing the entry keeps what is outstanding. -/
theorem mono (h : Outstanding p c s) (hpq : p → q) : Outstanding q c s := by
  cases h with
  | idle hu hw hq => exact .idle hu hw (hpq ∘ hq)
  | request hwh hw hq => exact .request hwh hw (hpq hq)
  | reply hr hu hw hq => exact .reply hr hu hw (hpq ∘ hq)

/-- INTERNAL: a socket that reports nothing needs no entry. -/
theorem quiet (h : Outstanding p c s) (hany : s.events.any = false) : Outstanding q c s := by
  have hev : s.unread = [] → s.eof = false ∧ (s.wantsWrite = true → s.room = 0) ∧ s.reset = false := by
    intro hu
    simp only [Socket.events, Flags.any, hu, List.isEmpty_nil, Bool.not_true, Bool.false_or,
      Bool.or_eq_false_iff, Bool.and_eq_false_iff, decide_eq_false_iff_not, Nat.not_lt,
      Nat.le_zero] at hany
    exact ⟨hany.1.1, fun hw => hany.1.2.resolve_left (by simp [hw]), hany.2⟩
  cases h with
  | idle hu hw _ =>
    obtain ⟨he, -, hr⟩ := hev hu
    exact .idle hu hw fun h => by simp [he, hr] at h
  | request hwh _ _ =>
    have hne := hwh.ne_nil
    simp only [Socket.events, Flags.any, List.isEmpty_eq_false.2 hne, Bool.not_false, Bool.true_or,
      Bool.true_eq_false] at hany
  | reply hr hu hw _ =>
    obtain ⟨he, hroom, hrs⟩ := hev hu
    exact .reply hr hu hw fun h => by simp [he, hrs, hroom hw] at h

/-- INTERNAL: a `FIN` or an `RST` arriving, with the entry queued. -/
theorem signal {s' : Socket} (h : Outstanding p c s) (hu : s'.unread = s.unread)
    (hw : s'.wantsWrite = s.wantsWrite) : Outstanding True c s' := by
  cases h with
  | idle hu' hw' _ => exact .idle (hu.trans hu') (hw.trans hw') fun _ => trivial
  | request hwh hw' _ => exact .request (hu ▸ hwh) (hw.trans hw') trivial
  | reply hr hu' hw' _ => exact .reply hr (hu.trans hu') (hw.trans hw') fun _ => trivial

/-- INTERNAL: the client acknowledging `n` bytes: the entry is queued when `EPOLLOUT` is
registered and the send buffer was full. -/
theorem drain (h : Outstanding p c s) (n : Nat) :
    Outstanding ((s.wantsWrite = true ∧ s.room = 0 ∧ 0 < n) ∨ p) c { s with room := s.room + n } := by
  cases h with
  | idle hu hw hq => exact .idle hu hw (.inr ∘ hq)
  | request hwh hw hq => exact .request hwh hw (.inr hq)
  | reply hr hu hw hq =>
    refine .reply hr hu hw fun h' => ?_
    by_cases hroom : 0 < s.room
    · exact .inr (hq (.inl hroom))
    · rcases h' with h' | h'
      · exact .inl ⟨hw, by omega, by simp at h'; omega⟩
      · exact .inr (hq (.inr h'))

end Outstanding

/-- The books of an open connection `c` with socket `s`, whose client sent `sent` and which had
the server execute `executed`, with replies `replies`: what it executed, followed by what waits
in the socket, is what its client sent; what `send` took, followed by the queue, is the
replies. -/
structure Ledger (sent : Bytes) (executed : List (Bytes × List Bytes)) (replies : List Bytes)
    (c : Connection) (s : Socket) : Prop where
  bytes : encodeCommands executed ++ s.unread = sent
  answered : s.delivered ++ c.outputQueue.flatten = replies.flatten

/-- INTERNAL: only the socket's bytes matter to the books. -/
theorem Ledger.socket {sent : Bytes} {executed : List (Bytes × List Bytes)} {replies : List Bytes}
    {c : Connection} {s s' : Socket} (h : Ledger sent executed replies c s) (hu : s'.unread = s.unread)
    (hd : s'.delivered = s.delivered) : Ledger sent executed replies c s' :=
  ⟨hu ▸ h.bytes, hd ▸ h.answered⟩

/-- A connection waiting for `accept` whose client sent `sent` and which had `executed`: its
socket holds all the client sent, nothing or one whole command, with `EPOLLOUT` not registered
and nothing sent on it, and nothing of it has run. -/
structure Backlogged (sent : Bytes) (executed : List (Bytes × List Bytes)) (s : Socket) : Prop where
  unread : s.unread = sent
  whole : s.unread = [] ∨ Whole s.unread
  wantsWrite : s.wantsWrite = false
  delivered : s.delivered = []
  executed : executed = []

/-- INTERNAL: only the socket's bytes, its `EPOLLOUT` and what it delivered matter to a connection
waiting for `accept`. -/
theorem Backlogged.socket {sent : Bytes} {executed : List (Bytes × List Bytes)} {s s' : Socket}
    (h : Backlogged sent executed s) (hu : s'.unread = s.unread) (hw : s'.wantsWrite = s.wantsWrite)
    (hd : s'.delivered = s.delivered) : Backlogged sent executed s' :=
  ⟨hu.trans h.unread, hu ▸ h.whole, hw.trans h.wantsWrite, hd.trans h.delivered, h.executed⟩

/-! ## The invariant -/

/-- The loop while its clients wait for their replies. `used` are the descriptors that have
connected, `sent` what each client has sent, and `hist` the commands the server has executed, in
order, each tagged with its client's descriptor. -/
structure Waiting (srv : σ) (used : List Nat) (sent : Nat → Bytes)
    (hist : List (Nat × (Bytes × List Bytes))) (w : Loop σ) : Prop where
  /-- The server's state is that of executing the history. -/
  server : w.srv = (replay (execCommand exec) srv hist).2
  /-- Each client's executed commands are a prefix of what it sent. -/
  executed : ∀ fd, encodeCommands (ofFd fd hist) <+: sent fd
  /-- A descriptor that has not connected has nothing anywhere. -/
  fresh : ∀ fd, fd ∉ used → w.conns.lookup fd = none ∧ w.sockets.lookup fd = none ∧
    w.backlog.lookup fd = none ∧ sent fd = [] ∧ ofFd fd hist = []
  /-- Epoll's ready list holds each entry once. -/
  nodup : w.ready.Nodup
  /-- The listening socket is queued while connections wait for `accept`. -/
  listen : w.backlog ≠ [] → .listen ∈ w.ready
  /-- A queued client entry's socket is registered. -/
  registered : ∀ fd, .client fd ∈ w.ready → (w.sockets.lookup fd).isSome
  /-- Each connection waiting for `accept` has a descriptor of its own, ... -/
  distinct : (keys w.backlog).Nodup
  /-- ... not registered, ... -/
  unregistered : ∀ fd ∈ keys w.backlog, w.conns.lookup fd = none ∧ w.sockets.lookup fd = none
  /-- ... and holds what its client sent. -/
  backlog : ∀ fd s, w.backlog.lookup fd = some s → Backlogged (sent fd) (ofFd fd hist) s
  /-- Each open connection has a socket, at most one thing outstanding, and its books. -/
  conns : ∀ fd c, w.conns.lookup fd = some c → ∃ s, w.sockets.lookup fd = some s ∧
    Outstanding (.client fd ∈ w.ready) c s ∧
    Ledger (sent fd) (ofFd fd hist) (ofFd fd (replay (execCommand exec) srv hist).1) c s

variable {exec} {srv : σ} {used : List Nat} {sent : Nat → Bytes}
  {hist : List (Nat × (Bytes × List Bytes))}

/-- A freshly started server keeps the invariant, with nothing sent or executed. -/
theorem waiting_init (srv : σ) (maxConnections sendBuffer : Nat) :
    Waiting exec srv [] (fun _ => []) [] (init srv maxConnections sendBuffer) where
  server := rfl
  executed _ := List.nil_prefix
  fresh _ _ := ⟨rfl, rfl, rfl, rfl, rfl⟩
  nodup := List.nodup_nil
  listen h := absurd rfl h
  registered _ h := absurd h (List.not_mem_nil _)
  distinct := List.nodup_nil
  unregistered _ h := absurd h (List.not_mem_nil _)
  backlog _ _ h := nomatch h
  conns _ _ h := nomatch h

/-- INTERNAL: the part of the invariant of a connection, at its registered socket. -/
theorem Waiting.conn_at {w : Loop σ} {fd : Nat} {c : Connection} {s : Socket}
    (h : Waiting exec srv used sent hist w) (hc : w.conns.lookup fd = some c)
    (hs : w.sockets.lookup fd = some s) :
    Outstanding (.client fd ∈ w.ready) c s ∧
      Ledger (sent fd) (ofFd fd hist) (ofFd fd (replay (execCommand exec) srv hist).1) c s := by
  obtain ⟨s', hs', ho, hl⟩ := h.conns fd c hc
  cases hs.symm.trans hs'
  exact ⟨ho, hl⟩

/-- A change of the loop that concerns only the registered connection of `fd`: the server ran
`cmds` for it, what its client sent is now `sent'`, the backlog and the other connections stay,
every other entry stays queued, and only `fd`'s may be queued anew. It keeps the invariant once
it keeps the part of `fd`. -/
theorem Waiting.update {w w' : Loop σ} {fd : Nat} {sent' : Nat → Bytes}
    {hist' : List (Nat × (Bytes × List Bytes))}
    (h : Waiting exec srv used sent hist w) (cmds : List (Bytes × List Bytes))
    (hreg : (w.sockets.lookup fd).isSome)
    (hsent : ∀ fd', fd' ≠ fd → sent' fd' = sent fd')
    (hhist : hist' = hist ++ cmds.map fun cmd => (fd, cmd))
    (hsrv : w'.srv = (replay (execCommand exec) srv hist').2)
    (hexec : encodeCommands (ofFd fd hist') <+: sent' fd) (hb : w'.backlog = w.backlog)
    (hothers : ∀ fd', fd' ≠ fd →
      w'.conns.lookup fd' = w.conns.lookup fd' ∧ w'.sockets.lookup fd' = w.sockets.lookup fd')
    (hkeep : ∀ e ∈ w.ready, e ≠ .client fd → e ∈ w'.ready)
    (hnew : ∀ e ∈ w'.ready, e ∈ w.ready ∨ e = .client fd) (hnodup : w'.ready.Nodup)
    (hqueued : .client fd ∈ w'.ready → (w'.sockets.lookup fd).isSome)
    (hfd : ∀ c, w'.conns.lookup fd = some c → ∃ s, w'.sockets.lookup fd = some s ∧
      Outstanding (.client fd ∈ w'.ready) c s ∧
      Ledger (sent' fd) (ofFd fd hist') (ofFd fd (replay (execCommand exec) srv hist').1) c s) :
    Waiting exec srv used sent' hist' w' := by
  subst hhist
  have hused : fd ∈ used := by
    by_contra hu
    rw [(h.fresh fd hu).2.1] at hreg
    cases hreg
  have hof : ∀ fd', fd' ≠ fd → ofFd fd' (hist ++ cmds.map fun cmd => (fd, cmd)) = ofFd fd' hist ∧
      ofFd fd' (replay (execCommand exec) srv (hist ++ cmds.map fun cmd => (fd, cmd))).1 =
        ofFd fd' (replay (execCommand exec) srv hist).1 := fun fd' hne => by
    rw [ofFd_append, ofFd_tag, ofFd_replay_tag, if_neg (Ne.symm hne), if_neg (Ne.symm hne),
      List.append_nil, List.append_nil]
    exact ⟨rfl, rfl⟩
  have hbne : ∀ fd' ∈ keys w.backlog, fd' ≠ fd := fun fd' hm he => by
    subst he
    rw [(h.unregistered fd' hm).2] at hreg
    cases hreg
  refine ⟨hsrv, fun fd' => ?_, fun fd' hu => ?_, hnodup, fun hne => ?_, fun fd' hm => ?_,
    hb ▸ h.distinct, fun fd' hm => ?_, fun fd' s hl => ?_, fun fd' c hc => ?_⟩
  · -- executed
    by_cases hne : fd' = fd
    · subst hne; exact hexec
    · rw [(hof fd' hne).1, hsent fd' hne]; exact h.executed fd'
  · -- fresh
    have hne : fd' ≠ fd := fun he => hu (he ▸ hused)
    rw [(hothers fd' hne).1, (hothers fd' hne).2, hb, hsent fd' hne, (hof fd' hne).1]
    exact h.fresh fd' hu
  · -- listen
    exact hkeep _ (h.listen (hb ▸ hne)) Ready.noConfusion
  · -- registered
    by_cases hne : fd' = fd
    · subst hne; exact hqueued hm
    · rcases hnew _ hm with hm | he
      · rw [(hothers fd' hne).2]; exact h.registered fd' hm
      · exact absurd (Ready.client.inj he) hne
  · -- unregistered
    rw [hb] at hm
    rw [(hothers fd' (hbne fd' hm)).1, (hothers fd' (hbne fd' hm)).2]
    exact h.unregistered fd' hm
  · -- backlog
    rw [hb] at hl
    have hne := hbne fd' (mem_keys_of_lookup hl)
    rw [hsent fd' hne, (hof fd' hne).1]
    exact h.backlog fd' s hl
  · -- conns
    by_cases hne : fd' = fd
    · subst hne; exact hfd c hc
    · rw [(hothers fd' hne).1] at hc
      obtain ⟨s, hs, ho, hl⟩ := h.conns fd' c hc
      rw [hsent fd' hne, (hof fd' hne).1, (hof fd' hne).2, (hothers fd' hne).2]
      exact ⟨s, hs, ho.mono fun hm => hkeep _ hm fun he => hne (Ready.client.inj he), hl⟩

/-- A change by `f` of the registered socket of `fd`, its entry queued when `b`, with what the
client of `fd` sent now `sent'`: it keeps the invariant once the connection's part holds of the
new socket. -/
theorem Waiting.socket {w : Loop σ} {fd : Nat} {s₀ : Socket} {sent' : Nat → Bytes}
    (h : Waiting exec srv used sent hist w) (hs : w.sockets.lookup fd = some s₀) (f : Socket → Socket)
    (b : Bool) (hsent : ∀ fd', fd' ≠ fd → sent' fd' = sent fd')
    (hexec : encodeCommands (ofFd fd hist) <+: sent' fd)
    (hfd : ∀ c, w.conns.lookup fd = some c →
      Outstanding (b = true ∨ .client fd ∈ w.ready) c (f s₀) ∧
      Ledger (sent' fd) (ofFd fd hist) (ofFd fd (replay (execCommand exec) srv hist).1) c (f s₀)) :
    Waiting exec srv used sent' hist
      (if b then { w with sockets := updateAt fd f w.sockets }.wake (.client fd)
       else { w with sockets := updateAt fd f w.sockets }) := by
  have hs' : (updateAt fd f w.sockets).lookup fd = some (f s₀) := lookup_updateAt_of_lookup hs
  rw [wake_if_eq]
  refine h.update [] (by rw [hs]; rfl) hsent (by simp) h.server hexec rfl
    (fun fd' hne => ⟨rfl, lookup_updateAt_of_ne _ hne⟩)
    (fun e he _ => (mem_wake_if b).2 (.inl he)) (fun e he => ((mem_wake_if b).1 he).imp id And.right)
    (nodup_wake_if (w := { w with sockets := updateAt fd f w.sockets }) h.nodup _ b)
    (fun _ => by simp only [hs', Option.isSome_some])
    fun c hc => ⟨f s₀, hs', ?_⟩
  obtain ⟨ho, hl⟩ := hfd c hc
  exact ⟨ho.mono fun hq => (mem_wake_if b).2 (hq.elim (fun hb => .inr ⟨hb, rfl⟩) .inl), hl⟩

/-- A change by `f` of the socket of `fd` while it is not registered, with what the client of
`fd` sent now `sent'`: it keeps the invariant once a connection of `fd` waiting for `accept` stays
`Backlogged`. -/
theorem Waiting.backlog_update {w : Loop σ} {fd : Nat} {sent' : Nat → Bytes}
    (h : Waiting exec srv used sent hist w) (hs : w.sockets.lookup fd = none) (f : Socket → Socket)
    (hsent : ∀ fd', fd' ≠ fd → sent' fd' = sent fd')
    (hnone : w.backlog.lookup fd = none → sent' fd = sent fd)
    (hf : ∀ s, w.backlog.lookup fd = some s → Backlogged (sent' fd) (ofFd fd hist) (f s)) :
    Waiting exec srv used sent' hist { w with backlog := updateAt fd f w.backlog } := by
  have hsame : ∀ fd', w.backlog.lookup fd' = none → sent' fd' = sent fd' := fun fd' hn => by
    by_cases hne : fd' = fd
    · subst hne; exact hnone hn
    · exact hsent fd' hne
  refine ⟨h.server, fun fd' => ?_, fun fd' hu => ?_, h.nodup,
    fun hne => h.listen fun he => hne (by rw [he]; rfl), h.registered,
    by simpa using h.distinct, fun fd' hm => h.unregistered fd' (by simpa using hm),
    fun fd' s hl => ?_, fun fd' c hc => ?_⟩
  · -- executed
    cases hl : w.backlog.lookup fd' with
    | none => rw [hsame fd' hl]; exact h.executed fd'
    | some s =>
      by_cases hne : fd' = fd
      · subst hne
        rw [(hf s hl).executed]
        exact List.nil_prefix
      · rw [hsent fd' hne]; exact h.executed fd'
  · -- fresh
    obtain ⟨hc, hs', hl, hse, hh⟩ := h.fresh fd' hu
    refine ⟨hc, hs', ?_, (hsame fd' hl).trans hse, hh⟩
    rw [lookup_updateAt, hl]
    split <;> rfl
  · -- backlog
    rw [lookup_updateAt] at hl
    split at hl
    · rename_i he
      subst he
      obtain ⟨s₀, hs₀, rfl⟩ := Option.map_eq_some'.1 hl
      exact hf s₀ hs₀
    · rename_i hne
      rw [hsent fd' hne]
      exact h.backlog fd' s hl
  · -- conns
    obtain ⟨s, hs', ho, hl⟩ := h.conns fd' c hc
    have hne : fd' ≠ fd := fun he => by rw [he, hs] at hs'; cases hs'
    rw [hsent fd' hne]
    exact ⟨s, hs', ho, hl⟩

/-! ## The client's actions -/

/-- What a client that waits for its replies may do in `w`: send one whole command when its
connection, accepted or not, has nothing it sent before left unread and nothing queued. It may
connect, acknowledge, close or reset at any time, and the server serves at any time. -/
def waitsForReply (w : Loop σ) : Action → Prop
  | .send fd bytes =>
    Whole bytes ∧ (∃ s, (w.sockets.lookup fd).or (w.backlog.lookup fd) = some s ∧ s.unread = []) ∧
      ∀ c ∈ w.conns.lookup fd, c.outputQueue = []
  | _ => True

/-- A new connection, on a descriptor that has not connected before, waits for `accept` with
nothing sent. -/
theorem Waiting.connect {w : Loop σ} {fd : Nat} (h : Waiting exec srv used sent hist w)
    (hfd : fd ∉ used) : Waiting exec srv (fd :: used) sent hist (w.step exec (.connect fd)) := by
  obtain ⟨hc, hs, hbl, hse, hh⟩ := h.fresh fd hfd
  have hk : fd ∉ keys w.backlog := (HashTable.lookup_eq_none_iff _ _).1 hbl
  have hmem := fun x => mem_wake
    (w := { w with backlog := w.backlog ++ [(fd, Socket.fresh w.sendBuffer)] }) (e := .listen) (x := x)
  have hnd := nodup_wake (w := { w with backlog := w.backlog ++ [(fd, Socket.fresh w.sendBuffer)] })
    h.nodup .listen
  rw [step, wake_eq]
  refine ⟨h.server, h.executed, fun fd' hu => ?_, hnd, fun _ => (hmem _).2 (.inr rfl),
    fun fd' hm => ?_, ?_, fun fd' hm => ?_, fun fd' s hl => ?_, fun fd' c hc' => ?_⟩
  · -- fresh
    obtain ⟨hne, hu⟩ := List.ne_and_not_mem_of_not_mem_cons hu
    obtain ⟨hc', hs', hl, hse', hh'⟩ := h.fresh fd' hu
    refine ⟨hc', hs', ?_, hse', hh'⟩
    simp only [lookup_append_single, hl, if_neg hne, Option.none_or]
  · -- registered
    rcases (hmem _).1 hm with hm | he
    · exact h.registered fd' hm
    · cases he
  · -- distinct
    simp only [keys, List.map_append, List.map_cons, List.map_nil]
    exact h.distinct.append (List.nodup_singleton fd) (List.disjoint_singleton.2 hk)
  · -- unregistered
    simp only [keys, List.map_append, List.map_cons, List.map_nil, List.mem_append,
      List.mem_singleton] at hm
    rcases hm with hm | rfl
    · exact h.unregistered fd' hm
    · exact ⟨hc, hs⟩
  · -- backlog
    simp only [lookup_append_single] at hl
    cases hl' : w.backlog.lookup fd' with
    | some s' =>
      rw [hl'] at hl
      cases hl
      exact h.backlog fd' _ hl'
    | none =>
      rw [hl'] at hl
      change (if fd' = fd then some (Socket.fresh w.sendBuffer) else none) = some s at hl
      split at hl
      · rename_i he
        subst he
        cases hl
        exact ⟨hse.symm, .inl rfl, rfl, rfl, hh⟩
      · cases hl
  · -- conns
    obtain ⟨s, hs', ho, hl⟩ := h.conns fd' c hc'
    exact ⟨s, hs', ho.mono fun hm => (hmem _).2 (.inl hm), hl⟩

/-- A waiting client's command arriving, accepted or not: a registered idle socket now holds it
with its entry queued, and an unaccepted one holds it for `accept`. -/
theorem Waiting.send {w : Loop σ} {fd : Nat} {bytes : Bytes} (h : Waiting exec srv used sent hist w)
    (ha : waitsForReply w (.send fd bytes)) :
    Waiting exec srv used (fun fd' => sent fd' ++ sentBy fd' [.send fd bytes]) hist
      (w.step exec (.send fd bytes)) := by
  obtain ⟨hwhole, ⟨s₀, hsock, hu⟩, hq⟩ := ha
  have hsent : ∀ fd', fd' ≠ fd → sent fd' ++ sentBy fd' [.send fd bytes] = sent fd' :=
    fun fd' hne => by simp [sentBy, Ne.symm hne]
  have hself : sent fd ++ sentBy fd [.send fd bytes] = sent fd ++ bytes := by simp [sentBy]
  rw [step, if_neg hwhole.ne_nil]
  dsimp only
  cases hs : w.sockets.lookup fd with
  | some s =>
    rw [hs] at hsock
    cases hsock
    simp only [updateSocket, hs, Option.isSome_some, if_true]
    refine h.socket hs _ true hsent (hself ▸ (h.executed fd).trans (List.prefix_append _ _))
      fun c hc => ?_
    obtain ⟨ho, hl⟩ := h.conn_at hc hs
    cases ho with
    | idle _ hw _ =>
      refine ⟨.request (by simpa [hu] using hwhole) hw (.inl rfl), ?_, hl.answered⟩
      rw [hself, ← hl.bytes, hu]
      simp
    | request hwh _ _ => exact absurd hu hwh.ne_nil
    | reply _ _ _ _ => cases hq _ hc
  | none =>
    rw [hs] at hsock
    change w.backlog.lookup fd = some s₀ at hsock
    simp only [updateSocket, hs, Option.isSome_none, Bool.false_eq_true, if_false]
    refine h.backlog_update hs _ hsent (fun hn => by rw [hn] at hsock; cases hsock) fun s hl => ?_
    rw [hsock] at hl
    cases hl
    have hb := h.backlog fd s₀ hsock
    rw [hself, ← hb.unread, hu]
    exact ⟨by simp, .inr (by simpa [hu] using hwhole), hb.wantsWrite, hb.delivered, hb.executed⟩

/-- The client's acknowledgement of `n` bytes keeps the invariant. -/
theorem Waiting.drain {w : Loop σ} (h : Waiting exec srv used sent hist w) (fd n : Nat) :
    Waiting exec srv used sent hist (w.step exec (.drain fd n)) := by
  cases hs : w.sockets.lookup fd with
  | none =>
    simp only [step, updateSocket, hs, Option.isSome_none, Bool.false_eq_true, if_false]
    exact h.backlog_update hs _ (fun _ _ => rfl) (fun _ => rfl) fun s hl =>
      (h.backlog fd s hl).socket rfl rfl rfl
  | some s₀ =>
    rw [step_drain_of_lookup exec hs]
    have hfd : ∀ c, w.conns.lookup fd = some c →
        Outstanding ((s₀.wantsWrite = true ∧ s₀.room = 0 ∧ 0 < n) ∨ .client fd ∈ w.ready) c
          { s₀ with room := s₀.room + n } ∧
        Ledger (sent fd) (ofFd fd hist) (ofFd fd (replay (execCommand exec) srv hist).1) c
          { s₀ with room := s₀.room + n } := fun c hc =>
      ⟨(h.conn_at hc hs).1.drain n, (h.conn_at hc hs).2.socket rfl rfl⟩
    by_cases hcond : s₀.wantsWrite = true ∧ s₀.room = 0 ∧ 0 < n
    · rw [if_pos hcond]
      exact h.socket hs _ true (fun _ _ => rfl) (h.executed fd) fun c hc =>
        ⟨(hfd c hc).1.mono fun _ => .inl rfl, (hfd c hc).2⟩
    · rw [if_neg hcond]
      exact h.socket hs _ false (fun _ _ => rfl) (h.executed fd) fun c hc =>
        ⟨(hfd c hc).1.mono fun hq => .inr (hq.resolve_left hcond), (hfd c hc).2⟩

/-- A `FIN` or an `RST` arriving, changing the socket by `f` and waking a registered one, keeps
the invariant. -/
theorem Waiting.updateSocket_wake {w : Loop σ} (h : Waiting exec srv used sent hist w) (fd : Nat)
    (f : Socket → Socket) (hu : ∀ s, (f s).unread = s.unread)
    (hw : ∀ s, (f s).wantsWrite = s.wantsWrite) (hd : ∀ s, (f s).delivered = s.delivered) :
    Waiting exec srv used sent hist
      (if (w.sockets.lookup fd).isSome then (w.updateSocket fd f).wake (.client fd)
       else w.updateSocket fd f) := by
  cases hs : w.sockets.lookup fd with
  | none =>
    simp only [updateSocket, hs, Option.isSome_none, Bool.false_eq_true, if_false]
    exact h.backlog_update hs _ (fun _ _ => rfl) (fun _ => rfl) fun s hl =>
      (h.backlog fd s hl).socket (hu s) (hw s) (hd s)
  | some s₀ =>
    simp only [updateSocket, hs, Option.isSome_some, if_true]
    refine h.socket hs f true (fun _ _ => rfl) (h.executed fd) fun c hc => ?_
    obtain ⟨ho, hl⟩ := h.conn_at hc hs
    exact ⟨(ho.signal (hu s₀) (hw s₀)).mono fun _ => .inl rfl, hl.socket (hu s₀) (hd s₀)⟩

/-! ## The work left in epoll's queue -/

/-- The work a client socket's entry stands for: two while the socket has bytes to read, whose
event may queue the socket again for the reply, one otherwise. -/
def clientWork (s : Socket) : Nat := if s.unread = [] then 1 else 2

/-- The work an entry of epoll's ready list stands for: its socket's for a client entry; for the
listening entry one, and for each connection waiting for `accept` one more than its socket's. -/
def entryWork (w : Loop σ) : Ready → Nat
  | .listen => 1 + (w.backlog.map fun p => 1 + clientWork p.2).sum
  | .client fd => ((w.sockets.lookup fd).map clientWork).getD 1

/-- The work left in epoll's queue. -/
def work (w : Loop σ) : Nat := (w.ready.map w.entryWork).sum

/-- INTERNAL: a socket's work is one or two. -/
theorem clientWork_pos_le (s : Socket) : 0 < clientWork s ∧ clientWork s ≤ 2 := by
  unfold clientWork; split <;> omega

/-- INTERNAL: a client entry stands for one or two. -/
theorem entryWork_client (w : Loop σ) (fd : Nat) :
    0 < w.entryWork (.client fd) ∧ w.entryWork (.client fd) ≤ 2 := by
  simp only [entryWork]
  cases w.sockets.lookup fd with
  | none => simp
  | some s => exact clientWork_pos_le s

/-- INTERNAL: every entry stands for some work. -/
theorem entryWork_pos (w : Loop σ) (e : Ready) : 0 < w.entryWork e := by
  cases e with
  | listen => simp [entryWork]
  | client fd => exact (entryWork_client w fd).1

/-- INTERNAL: the work of a registered socket's entry. -/
theorem entryWork_of_lookup {w : Loop σ} {fd : Nat} {s : Socket} (hs : w.sockets.lookup fd = some s) :
    w.entryWork (.client fd) = clientWork s := by
  simp only [entryWork, hs, Option.map_some', Option.getD_some]

/-- INTERNAL: an entry whose socket, and for the listening entry the backlog, stayed stands for
the same work. -/
theorem entryWork_congr {w w' : Loop σ} {e : Ready} (hb : e = .listen → w'.backlog = w.backlog)
    (hs : ∀ fd, e = .client fd → w'.sockets.lookup fd = w.sockets.lookup fd) :
    w'.entryWork e = w.entryWork e := by
  cases e with
  | listen => simp only [entryWork, hb rfl]
  | client fd => simp only [entryWork, hs fd rfl]

/-- With each entry queued once, the work is at most two for each entry and three for each
connection waiting for `accept`. -/
theorem work_le (w : Loop σ) (hnd : w.ready.Nodup) :
    w.work ≤ 2 * w.ready.length + 3 * w.backlog.length := by
  have hlisten : w.entryWork .listen ≤ 1 + 3 * w.backlog.length := by
    suffices ∀ l : List (Nat × Socket), (l.map fun p => 1 + clientWork p.2).sum ≤ 3 * l.length by
      simp only [entryWork]
      have := this w.backlog
      omega
    intro l
    induction l with
    | nil => simp
    | cons p l ih =>
      simp only [List.map_cons, List.sum_cons, List.length_cons]
      have := (clientWork_pos_le p.2).2
      omega
  suffices ∀ l : List Ready, l.Nodup →
      (l.map w.entryWork).sum ≤ 2 * l.length + if .listen ∈ l then 3 * w.backlog.length else 0 by
    have := this w.ready hnd
    unfold work
    split at this <;> omega
  intro l hl
  induction l with
  | nil => simp
  | cons e l ih =>
    rw [List.nodup_cons] at hl
    have ih := ih hl.2
    rw [List.map_cons, List.sum_cons, List.length_cons]
    cases e with
    | listen =>
      rw [if_neg hl.1] at ih
      rw [if_pos (List.mem_cons_self _ _)]
      omega
    | client fd =>
      have hmem : (Ready.listen ∈ Ready.client fd :: l) ↔ Ready.listen ∈ l := by simp
      have := (entryWork_client w fd).2
      simp only [hmem]
      split at ih <;> split <;> omega

/-- INTERNAL: a served client entry whose handling changed only its own socket, and queued it
again at most with less work, lowers the work. -/
theorem work_lt_of_client {w w' : Loop σ} {fd : Nat} {rest : List Ready}
    (hr : w.ready = .client fd :: rest) (hnd : .client fd ∉ rest) (hb : w'.backlog = w.backlog)
    (hs : ∀ fd', fd' ≠ fd → w'.sockets.lookup fd' = w.sockets.lookup fd')
    (hr' : w'.ready = rest ∨
      (w'.ready = rest ++ [.client fd] ∧ w'.entryWork (.client fd) < w.entryWork (.client fd))) :
    w'.work < w.work := by
  have hsum : (rest.map w'.entryWork).sum = (rest.map w.entryWork).sum :=
    congrArg List.sum (List.map_congr_left fun e he => entryWork_congr (fun _ => hb) fun fd' he' =>
      hs fd' fun hfd => hnd (by rw [← hfd, ← he']; exact he))
  have hpos := entryWork_pos w (.client fd)
  unfold work
  rw [hr, List.map_cons, List.sum_cons]
  rcases hr' with h' | ⟨h', hlt⟩
  · rw [h', hsum]; omega
  · rw [h', List.map_append, List.sum_append, hsum]
    simp only [List.map_cons, List.map_nil, List.sum_cons, List.sum_nil]
    omega

/-! ## Serving one entry -/

/-- The served entry's connection closing keeps the invariant and lowers the work. -/
theorem Waiting.closeConnection {w : Loop σ} {fd : Nat} {rest : List Ready}
    (h : Waiting exec srv used sent hist w) (hr : w.ready = .client fd :: rest) :
    Waiting exec srv used sent hist ({ w with ready := rest }.closeConnection fd) ∧
      ({ w with ready := rest }.closeConnection fd).work < w.work := by
  have hnd := List.nodup_cons.1 (hr ▸ h.nodup)
  have hfilter : rest.filter (· ≠ .client fd) = rest :=
    List.filter_eq_self.2 fun e he => decide_eq_true fun he' => hnd.1 (he' ▸ he)
  have hothers : ∀ fd', fd' ≠ fd →
      (eraseAt fd w.conns).lookup fd' = w.conns.lookup fd' ∧
        (eraseAt fd w.sockets).lookup fd' = w.sockets.lookup fd' := fun fd' hne =>
    ⟨lookup_eraseAt_of_ne _ hne, lookup_eraseAt_of_ne _ hne⟩
  refine ⟨h.update [] (h.registered fd (hr ▸ List.mem_cons_self _ _)) (fun _ _ => rfl)
    (by simp) h.server (h.executed fd) rfl hothers (fun e he hne => ?_) (fun e he => ?_) ?_
    (fun hm => ?_) (fun c hc => ?_),
    work_lt_of_client hr hnd.1 rfl (fun fd' hne => (hothers fd' hne).2) (.inl hfilter)⟩
  · show e ∈ rest.filter _
    rw [hfilter]
    rw [hr] at he
    exact (List.mem_cons.1 he).resolve_left hne
  · show e ∈ w.ready ∨ _
    rw [hr]
    exact .inl (List.mem_cons_of_mem _ (List.mem_filter.1 he).1)
  · exact hnd.2.filter _
  · simp [Loop.closeConnection] at hm
  · simp only [Loop.closeConnection, lookup_eraseAt, if_true] at hc
    cases hc

/-- The focused connection's event, after which it has `c` and `s`, the server has run `cmds`
for it, and its entry is queued again or not, keeps the invariant. -/
theorem Waiting.focused {w : Loop σ} {fd : Nat} {rest : List Ready} {c₀ : Connection} {s₀ : Socket}
    {srv' : σ} {c : Connection} {s : Socket} {r : List Ready}
    {hist' : List (Nat × (Bytes × List Bytes))}
    (h : Waiting exec srv used sent hist w) (hr : w.ready = .client fd :: rest)
    (cmds : List (Bytes × List Bytes))
    (hc : w.conns.lookup fd = some c₀) (hs : w.sockets.lookup fd = some s₀)
    (hhist : hist' = hist ++ cmds.map fun cmd => (fd, cmd))
    (hsrv : srv' = (replay (execCommand exec) srv hist').2)
    (hexec : encodeCommands (ofFd fd hist') <+: sent fd) (hready : r = rest ∨ r = rest ++ [.client fd])
    (hout : Outstanding (.client fd ∈ r) c s)
    (hled : Ledger (sent fd) (ofFd fd hist') (ofFd fd (replay (execCommand exec) srv hist').1) c s) :
    Waiting exec srv used sent hist' (focus w fd srv' c s r) := by
  have hnd := List.nodup_cons.1 (hr ▸ h.nodup)
  refine h.update cmds (by rw [hs]; rfl) (fun _ _ => rfl) hhist hsrv hexec rfl
    (fun fd' hne => ⟨lookup_updateAt_of_ne _ hne, lookup_updateAt_of_ne _ hne⟩) (fun e he hne => ?_) (fun e he => ?_) ?_
    (fun _ => by rw [focus_sockets_lookup hs]; rfl) fun c' hc' => ?_
  · rw [hr] at he
    have he := (List.mem_cons.1 he).resolve_left hne
    rcases hready with rfl | rfl
    · exact he
    · exact List.mem_append_left _ he
  · rw [hr]
    rcases hready with rfl | rfl
    · exact .inl (List.mem_cons_of_mem _ he)
    · rcases List.mem_append.1 he with he | he
      · exact .inl (List.mem_cons_of_mem _ he)
      · exact .inr (List.mem_singleton.1 he)
  · rcases hready with rfl | rfl
    · exact hnd.2
    · exact hnd.2.append (List.nodup_singleton _) (List.disjoint_singleton.2 hnd.1)
  · rw [focus_conns_lookup hc] at hc'
    cases hc'
    exact ⟨s, focus_sockets_lookup hs, hout, hled⟩

/-- Serving a client entry keeps the invariant and lowers the work. A socket reporting nothing is
dropped; an `RST` closes the connection, and so does a `FIN` once nothing is unread; a command is
executed and its reply queued, its entry queued again while the send buffer has room or a `FIN`
has come; a reply goes out as far as the send buffer takes it. -/
theorem Waiting.event (hreply : ∀ srv command args, (exec srv command args).1 ≠ [])
    {w : Loop σ} {fd : Nat} {rest : List Ready} (h : Waiting exec srv used sent hist w)
    (hr : w.ready = .client fd :: rest) :
    ∃ hist', Waiting exec srv used sent hist' (w.step exec .serve) ∧
      (w.step exec .serve).work < w.work := by
  have hnd := List.nodup_cons.1 (hr ▸ h.nodup)
  obtain ⟨s₀, hs⟩ := Option.isSome_iff_exists.1 (h.registered fd (hr ▸ List.mem_cons_self _ _))
  have hclose := h.closeConnection hr
  have hothers : ∀ fd', fd' ≠ fd → ∀ {srv' : σ} {c : Connection} {s : Socket} {r : List Ready},
      (focus w fd srv' c s r).sockets.lookup fd' = w.sockets.lookup fd' := by
    intro fd' hne srv' c s r
    exact lookup_updateAt_of_ne _ hne
  by_cases hany : s₀.events.any = true
  swap
  · -- a stale entry
    have hstep : w.step exec .serve = { w with ready := rest } := by
      simp only [step, hr, hs, hany]
      rfl
    rw [hstep]
    refine ⟨hist, h.update [] (by rw [hs]; rfl) (fun _ _ => rfl) (by simp) h.server
      (h.executed fd) rfl (fun _ _ => ⟨rfl, rfl⟩)
      (fun e he hne => (List.mem_cons.1 (hr ▸ he)).resolve_left hne)
      (fun e he => .inl (hr ▸ List.mem_cons_of_mem _ he)) hnd.2 (fun hm => absurd hm hnd.1)
      fun c hc => ?_, work_lt_of_client hr hnd.1 rfl (fun _ _ => rfl) (.inl rfl)⟩
    obtain ⟨ho, hl⟩ := h.conn_at hc hs
    exact ⟨s₀, hs, ho.quiet (by simpa using hany), hl⟩
  rw [step_serve_client exec w hr hs hany]
  cases hc : w.conns.lookup fd with
  | none =>
    -- `handle_event` of a descriptor without a connection closes the socket
    have heq : ({ w with ready := rest } : Loop σ).handleEvent exec fd s₀.events =
        { w with ready := rest }.closeConnection fd := by
      have hce : eraseAt fd w.conns = w.conns :=
        HashTable.filter_key_ne_of_not_mem ((HashTable.lookup_eq_none_iff _ _).1 hc)
      simp only [handleEvent, hc, Loop.closeConnection, hce]
    rw [heq]
    exact ⟨hist, hclose⟩
  | some c =>
    obtain ⟨ho, hl⟩ := h.conn_at hc hs
    obtain ⟨u, e, rs, room, ww, d⟩ := s₀
    cases rs
    swap
    · -- an `RST`
      have heq : ({ w with ready := rest } : Loop σ).handleEvent exec fd
          (Socket.events ⟨u, e, true, room, ww, d⟩) = { w with ready := rest }.closeConnection fd := by
        simp only [handleEvent, hc, hs, Socket.events, if_true]
      rw [heq]
      exact ⟨hist, hclose⟩
    rw [← focus_self_ready hc hs rest]
    cases ho with
    | idle hu hw _ =>
      -- only a `FIN` can be reported: `recv` returns `0`
      simp only at hu hw
      subst hu hw
      cases e
      · simp [Socket.events, Flags.any] at hany
      · rw [show Socket.events ⟨[], true, false, room, false, d⟩ = ⟨true, false, false⟩ by
          simp [Socket.events], focus_eof exec hc hs rfl]
        exact ⟨hist, hclose⟩
    | request hwh hw _ =>
      simp only at hwh hw
      subst hw
      obtain ⟨cmd, hfit, hu, hsize⟩ := hwh
      subst hu
      have hne : encodeCommand cmd.1 cmd.2 ≠ [] := by simp [encodeCommand]
      rw [show Socket.events ⟨encodeCommand cmd.1 cmd.2, e, false, room, false, d⟩ =
          ⟨true, false, false⟩ by simp [Socket.events, List.isEmpty_eq_false.2 hne],
        focus_command exec hc hs hfit hsize hnd.1]
      have hhist : ofFd fd (hist ++ [cmd].map fun cmd => (fd, cmd)) = ofFd fd hist ++ [cmd] := by
        rw [ofFd_append, ofFd_tag, if_pos rfl]
      have hbytes : encodeCommands (ofFd fd hist ++ [cmd]) = sent fd := by
        rw [← hl.bytes]
        simp [encodeCommands]
      refine ⟨_, h.focused hr [cmd] hc hs rfl ?_ (by rw [hhist, hbytes])
        (by split <;> simp) ?_ ?_, ?_⟩
      · rw [replay_append, replay_tag, ← h.server]
        rfl
      · refine .reply (hreply _ _ _) rfl rfl fun hq => ?_
        rw [if_pos (by simpa [or_comm] using hq)]
        exact List.mem_append_right _ (List.mem_singleton_self _)
      · refine ⟨by rw [hhist, hbytes, List.append_nil], ?_⟩
        rw [ofFd_replay_tag, if_pos rfl, List.flatten_append, ← hl.answered, ← h.server]
        simp [runCommands, execCommand, Connection.init]
      · refine work_lt_of_client hr hnd.1 rfl (hothers · ·) ?_
        split
        · refine .inr ⟨rfl, ?_⟩
          rw [entryWork_of_lookup (focus_sockets_lookup hs), entryWork_of_lookup hs]
          simp [clientWork, hne]
        · exact .inl rfl
    | @reply _ r hne hu hw _ =>
      simp only at hu hw
      subst hu hw
      cases e
      · -- `EPOLLOUT` alone: `send` takes what the send buffer has room for
        have hroom : 0 < room := by simpa [Socket.events, Flags.any] using hany
        rw [show Socket.events ⟨[], false, false, room, true, d⟩ = ⟨false, true, false⟩ by
          simp [Socket.events, hroom]]
        by_cases hle : r.length ≤ room
        · rw [focus_reply exec hc hs hne hle]
          refine ⟨hist, h.focused hr [] hc hs (by simp) h.server (h.executed fd) (.inl rfl)
            (.idle rfl rfl fun h => by simp at h) ⟨hl.bytes, by rw [← hl.answered]; simp [Connection.init]⟩,
            work_lt_of_client hr hnd.1 rfl (hothers · ·) (.inl rfl)⟩
        · have hlt := Nat.lt_of_not_le hle
          rw [focus_reply_part exec hc hs hroom hlt]
          refine ⟨hist, h.focused hr [] hc hs (by simp) h.server (h.executed fd) (.inl rfl)
            (.reply (by simpa using hlt) rfl rfl fun h => by simp at h)
            ⟨hl.bytes, by rw [← hl.answered]; simp⟩,
            work_lt_of_client hr hnd.1 rfl (hothers · ·) (.inl rfl)⟩
      · -- a `FIN`: `recv` returns `0` before `EPOLLOUT` is handled
        rw [show Socket.events ⟨[], true, false, room, true, d⟩ = ⟨true, decide (0 < room), false⟩ by
          simp [Socket.events], focus_eof exec hc hs rfl]
        exact ⟨hist, hclose⟩

/-- INTERNAL: `accept_connection` of the oldest waiting connection, as the listening entry is
served. The connection leaves the backlog, and the listening socket is queued again while more
wait. Unless `max_connections_` are open, its socket is registered with a new connection and
polled, which queues its entry when it reports an event. -/
theorem step_accept {w : Loop σ} {rest : List Ready} {fd : Nat} {s : Socket}
    {brest : List (Nat × Socket)} (hr : w.ready = .listen :: rest) (hb : w.backlog = (fd, s) :: brest)
    (hlisten : .listen ∉ rest) (hfd : .client fd ∉ rest) :
    w.step exec .serve =
      let w' : Loop σ :=
        { w with backlog := brest, ready := if brest = [] then rest else rest ++ [.listen] }
      if w.maxConnections ≤ w.conns.length then w'
      else { w' with conns := eraseAt fd w'.conns ++ [(fd, Connection.init)],
                     sockets := eraseAt fd w'.sockets ++ [(fd, s)],
                     ready := if s.events.any then w'.ready ++ [.client fd] else w'.ready } := by
  have hW : (if brest.isEmpty then ({ w with ready := rest, backlog := brest } : Loop σ)
      else ({ w with ready := rest, backlog := brest } : Loop σ).wake .listen) =
      { w with backlog := brest, ready := if brest = [] then rest else rest ++ [.listen] } := by
    cases brest with
    | nil => rfl
    | cons p ps => exact wake_of_not_mem hlisten
  simp only [step, hr, acceptConnection, hb]
  rw [hW]
  dsimp only
  split
  · rfl
  · simp only [repoll, lookup_eraseAt_append, if_true]
    split
    · rename_i hany
      rw [wake_of_not_mem (by split <;> simp [hfd])]
    · rename_i hany
      simp only [hany]

/-- Taking the oldest connection off the backlog, with the listening entry served and queued
again while more wait, keeps the invariant: the connection is closed unless it is registered
next. The work drops by more than the connection's socket stands for. -/
theorem Waiting.pop {w : Loop σ} {rest : List Ready} {fd : Nat} {s : Socket}
    {brest : List (Nat × Socket)} (h : Waiting exec srv used sent hist w)
    (hr : w.ready = .listen :: rest) (hb : w.backlog = (fd, s) :: brest) :
    Waiting exec srv used sent hist
        { w with backlog := brest, ready := if brest = [] then rest else rest ++ [.listen] } ∧
      ({ w with backlog := brest, ready := if brest = [] then rest else rest ++ [.listen] } : Loop σ).work +
        clientWork s < w.work := by
  have hnd := List.nodup_cons.1 (hr ▸ h.nodup)
  have hdist : (fd :: keys brest).Nodup := by simpa [hb] using h.distinct
  have hbrest : ∀ fd', brest.lookup fd' = if fd' = fd then none else w.backlog.lookup fd' := by
    intro fd'
    rw [hb, HashTable.lookup_cons_pair]
    split
    · rename_i he
      subst he
      exact (HashTable.lookup_eq_none_iff _ _).2 (List.nodup_cons.1 hdist).1
    · rfl
  have hmem : ∀ e ∈ (if brest = [] then rest else rest ++ [.listen]), e ∈ rest ∨ e = .listen := by
    intro e he
    split at he
    · exact .inl he
    · simpa using he
  have hkeep : ∀ e ∈ w.ready, e ≠ .listen → e ∈ (if brest = [] then rest else rest ++ [.listen]) := by
    intro e he hne
    have he := (List.mem_cons.1 (hr ▸ he)).resolve_left hne
    split
    · exact he
    · exact List.mem_append_left _ he
  refine ⟨⟨h.server, h.executed, fun fd' hu => ?_, ?_, fun hne => ?_, fun fd' hm => ?_,
    (List.nodup_cons.1 hdist).2, fun fd' hm => h.unregistered fd' (by rw [hb]; exact List.mem_cons_of_mem _ hm),
    fun fd' s' hl => ?_, fun fd' c hc => ?_⟩, ?_⟩
  · -- fresh
    obtain ⟨hc, hs, hl, hse, hh⟩ := h.fresh fd' hu
    exact ⟨hc, hs, by rw [hbrest, hl]; split <;> rfl, hse, hh⟩
  · -- nodup
    split
    · exact hnd.2
    · exact hnd.2.append (List.nodup_singleton _) (List.disjoint_singleton.2 hnd.1)
  · -- listen
    rw [if_neg hne]
    exact List.mem_append_right _ (List.mem_singleton_self _)
  · -- registered
    rcases hmem _ hm with hm | he
    · exact h.registered fd' (hr ▸ List.mem_cons_of_mem _ hm)
    · cases he
  · -- backlog
    rw [hbrest] at hl
    split at hl
    · cases hl
    · exact h.backlog fd' s' hl
  · -- conns
    obtain ⟨s', hs, ho, hl⟩ := h.conns fd' c hc
    exact ⟨s', hs, ho.mono fun hm => hkeep _ hm Ready.noConfusion, hl⟩
  · -- work
    have hsum : (rest.map (entryWork ({ w with backlog := brest } : Loop σ))).sum =
        (rest.map w.entryWork).sum :=
      congrArg List.sum (List.map_congr_left fun e he =>
        entryWork_congr (fun hl => absurd (hl ▸ he) hnd.1) fun _ _ => rfl)
    have hlw : w.entryWork .listen =
        2 + clientWork s + (brest.map fun p => 1 + clientWork p.2).sum := by
      simp only [entryWork, hb, List.map_cons, List.sum_cons]
      omega
    show ((if brest = [] then rest else rest ++ [.listen]).map
      (entryWork ({ w with backlog := brest } : Loop σ))).sum + clientWork s < (w.ready.map w.entryWork).sum
    split
    · rw [hsum, hr, List.map_cons, List.sum_cons, hlw]
      omega
    · rw [List.map_append, List.sum_append, hsum, hr]
      simp only [List.map_cons, List.map_nil, List.sum_cons, List.sum_nil]
      rw [hlw]
      simp only [entryWork]
      omega

/-- Registering the socket `s` of a connection that has left the backlog with a new connection,
and polling it, keeps the invariant: its command, if it sent one before `accept`, waits with
the entry queued. The work grows by at most what the socket stands for. -/
theorem Waiting.register {w : Loop σ} {fd : Nat} {s : Socket} (h : Waiting exec srv used sent hist w)
    (hused : fd ∈ used) (hc : w.conns.lookup fd = none) (hs : w.sockets.lookup fd = none)
    (hbl : w.backlog.lookup fd = none) (hb : Backlogged (sent fd) (ofFd fd hist) s) :
    Waiting exec srv used sent hist
        { w with conns := eraseAt fd w.conns ++ [(fd, Connection.init)],
                 sockets := eraseAt fd w.sockets ++ [(fd, s)],
                 ready := if s.events.any then w.ready ++ [.client fd] else w.ready } ∧
      ({ w with conns := eraseAt fd w.conns ++ [(fd, Connection.init)],
                sockets := eraseAt fd w.sockets ++ [(fd, s)],
                ready := if s.events.any then w.ready ++ [.client fd] else w.ready } : Loop σ).work ≤
        w.work + clientWork s := by
  have hq : .client fd ∉ w.ready := fun hm => by
    have := h.registered fd hm
    rw [hs] at this
    cases this
  have hmem : ∀ e, e ∈ (if s.events.any then w.ready ++ [.client fd] else w.ready) ↔
      e ∈ w.ready ∨ (s.events.any = true ∧ e = .client fd) := by
    intro e
    split <;> simp [*]
  have hlk : ∀ {α : Type} (l : List (Nat × α)) (x : α) (fd' : Nat), fd' ≠ fd →
      (eraseAt fd l ++ [(fd, x)]).lookup fd' = l.lookup fd' := fun l x fd' hne => by
    rw [lookup_eraseAt_append, if_neg hne]
  have hkeys : ∀ fd' ∈ keys w.backlog, fd' ≠ fd := fun fd' hm he =>
    (HashTable.lookup_eq_none_iff _ _).1 hbl (he ▸ hm)
  have hself : (eraseAt fd w.sockets ++ [(fd, s)]).lookup fd = some s := by
    rw [lookup_eraseAt_append, if_pos rfl]
  refine ⟨⟨h.server, h.executed, fun fd' hu => ?_, ?_, fun hne => (hmem _).2 (.inl (h.listen hne)),
    fun fd' hm => ?_, h.distinct, fun fd' hm => ?_, h.backlog, fun fd' c hc' => ?_⟩, ?_⟩
  · -- fresh
    have hne : fd' ≠ fd := fun he => hu (he ▸ hused)
    obtain ⟨hc', hs', hl, hse, hh⟩ := h.fresh fd' hu
    exact ⟨by rw [hlk _ _ _ hne]; exact hc', by rw [hlk _ _ _ hne]; exact hs', hl, hse, hh⟩
  · -- nodup
    split
    · exact h.nodup.append (List.nodup_singleton _) (List.disjoint_singleton.2 hq)
    · exact h.nodup
  · -- registered
    by_cases hne : fd' = fd
    · subst hne
      simp only [hself, Option.isSome_some]
    · rw [hlk _ _ _ hne]
      rcases (hmem _).1 hm with hm | ⟨-, he⟩
      · exact h.registered fd' hm
      · exact absurd (Ready.client.inj he) hne
  · -- unregistered
    have hne := hkeys fd' hm
    rw [hlk _ _ _ hne, hlk _ _ _ hne]
    exact h.unregistered fd' hm
  · -- conns
    by_cases hne : fd' = fd
    · subst hne
      rw [lookup_eraseAt_append, if_pos rfl] at hc'
      cases hc'
      have hev : s.unread ≠ [] ∨ s.eof = true ∨ s.reset = true →
          .client fd' ∈ (if s.events.any then w.ready ++ [.client fd'] else w.ready) := by
        intro h'
        refine (hmem _).2 (.inr ⟨?_, rfl⟩)
        rcases h' with h' | h' | h' <;> simp [Socket.events, Flags.any, List.isEmpty_iff, h']
      refine ⟨s, hself, ?_, ?_, ?_⟩
      · rcases hb.whole with hu | hwh
        · exact .idle hu hb.wantsWrite fun h' => hev (.inr h')
        · exact .request hwh hb.wantsWrite (hev (.inl hwh.ne_nil))
      · rw [hb.executed, ← hb.unread]
        rfl
      · rw [hb.delivered, ofFd_replay_nil _ _ _ hb.executed]
        rfl
    · rw [hlk _ _ _ hne] at hc'
      obtain ⟨s', hs', ho, hl⟩ := h.conns fd' c hc'
      exact ⟨s', by rw [hlk _ _ _ hne]; exact hs', ho.mono fun hm => (hmem _).2 (.inl hm), hl⟩
  · -- work
    have hsum : (w.ready.map (entryWork ({ w with sockets := eraseAt fd w.sockets ++ [(fd, s)] } : Loop σ))).sum =
        (w.ready.map w.entryWork).sum :=
      congrArg List.sum (List.map_congr_left fun e he => entryWork_congr (fun _ => rfl) fun fd' he' =>
        hlk _ _ _ fun hfd => hq (by rw [← hfd, ← he']; exact he))
    show ((if s.events.any then w.ready ++ [.client fd] else w.ready).map
      (entryWork ({ w with sockets := eraseAt fd w.sockets ++ [(fd, s)] } : Loop σ))).sum ≤
        (w.ready.map w.entryWork).sum + clientWork s
    split
    · rw [List.map_append, List.sum_append, hsum]
      simp only [List.map_cons, List.map_nil, List.sum_cons, List.sum_nil,
        entryWork_of_lookup (w := { w with sockets := eraseAt fd w.sockets ++ [(fd, s)] }) hself]
      omega
    · rw [hsum]
      omega

/-- Serving the listening entry keeps the invariant and lowers the work. -/
theorem Waiting.accept {w : Loop σ} {rest : List Ready} (h : Waiting exec srv used sent hist w)
    (hr : w.ready = .listen :: rest) :
    Waiting exec srv used sent hist (w.step exec .serve) ∧ (w.step exec .serve).work < w.work := by
  have hnd := List.nodup_cons.1 (hr ▸ h.nodup)
  cases hb : w.backlog with
  | nil =>
    have hstep : w.step exec .serve = { w with ready := rest } := by
      simp only [step, hr, acceptConnection, hb]
    rw [hstep]
    refine ⟨⟨h.server, h.executed, h.fresh, hnd.2, fun hne => absurd hb hne,
      fun fd hm => h.registered fd (hr ▸ List.mem_cons_of_mem _ hm), h.distinct, h.unregistered,
      h.backlog, fun fd c hc => ?_⟩, ?_⟩
    · obtain ⟨s, hs, ho, hl⟩ := h.conns fd c hc
      exact ⟨s, hs, ho.mono fun hm => (List.mem_cons.1 (hr ▸ hm)).resolve_left Ready.noConfusion, hl⟩
    · show (rest.map w.entryWork).sum < (w.ready.map w.entryWork).sum
      rw [hr, List.map_cons, List.sum_cons]
      have := entryWork_pos w .listen
      omega
  | cons p brest =>
    obtain ⟨fd, s⟩ := p
    have hfdb : w.backlog.lookup fd = some s := by rw [hb]; simp
    have hmemb : fd ∈ keys w.backlog := mem_keys_of_lookup hfdb
    obtain ⟨hcn, hsn⟩ := h.unregistered fd hmemb
    have hnq : .client fd ∉ rest := fun hm => by
      have := h.registered fd (hr ▸ List.mem_cons_of_mem _ hm)
      rw [hsn] at this
      cases this
    have hused : fd ∈ used := by
      by_contra hu
      rw [(h.fresh fd hu).2.2.1] at hfdb
      cases hfdb
    have hbl : brest.lookup fd = none := by
      have := h.distinct
      rw [hb] at this
      exact (HashTable.lookup_eq_none_iff _ _).2 (List.nodup_cons.1 this).1
    obtain ⟨hW, hlt⟩ := h.pop hr hb
    rw [step_accept hr hb hnd.1 hnq]
    dsimp only
    split
    · exact ⟨hW, by omega⟩
    · obtain ⟨hW', hle⟩ := hW.register hused hcn hsn hbl (h.backlog fd s hfdb)
      exact ⟨hW', lt_of_le_of_lt hle hlt⟩

/-- Serving the oldest entry keeps the invariant, and when an entry was queued it lowers the
work. -/
theorem Waiting.serve (hreply : ∀ srv command args, (exec srv command args).1 ≠ [])
    {w : Loop σ} (h : Waiting exec srv used sent hist w) :
    ∃ hist', Waiting exec srv used sent hist' (w.step exec .serve) ∧
      (w.ready ≠ [] → (w.step exec .serve).work < w.work) := by
  cases hr : w.ready with
  | nil =>
    have hstep : w.step exec .serve = w := by simp only [step, hr]
    rw [hstep]
    exact ⟨hist, h, fun hne => absurd rfl hne⟩
  | cons e rest =>
    cases e with
    | listen =>
      obtain ⟨h', hlt⟩ := h.accept hr
      exact ⟨hist, h', fun _ => hlt⟩
    | client fd =>
      obtain ⟨hist', h', hlt⟩ := h.event hreply hr
      exact ⟨hist', h', fun _ => hlt⟩

/-- The descriptors of the connections a run makes, in order. -/
def connects (actions : List Action) : List Nat :=
  actions.filterMap fun
    | .connect fd => some fd
    | _ => none

/-- INTERNAL: the connections of a run, action by action. -/
theorem connects_cons (a : Action) (as : List Action) :
    connects (a :: as) = connects [a] ++ connects as := by
  cases a <;> rfl

/-- Every action of waiting clients, and the server's serving, keeps the invariant: a new
connection's descriptor joins `used`, a command sent joins what its client sent, and the
history grows by the commands the server runs. -/
theorem Waiting.step (hreply : ∀ srv command args, (exec srv command args).1 ≠ [])
    {w : Loop σ} (h : Waiting exec srv used sent hist w) (a : Action) (ha : waitsForReply w a)
    (hfresh : ∀ fd ∈ connects [a], fd ∉ used) :
    ∃ hist', Waiting exec srv (connects [a] ++ used) (fun fd => sent fd ++ sentBy fd [a]) hist'
      (w.step exec a) := by
  have hsame : ∀ a : Action, (∀ fd bytes, a ≠ .send fd bytes) →
      (fun fd => sent fd ++ sentBy fd [a]) = sent := fun a ha => funext fun fd => by
    cases a with
    | send fd' bytes => exact absurd rfl (ha fd' bytes)
    | _ => exact List.append_nil _
  cases a with
  | connect fd =>
    rw [hsame _ fun _ _ => Action.noConfusion]
    exact ⟨hist, h.connect (hfresh fd (List.mem_singleton_self _))⟩
  | send fd bytes => exact ⟨hist, h.send ha⟩
  | drain fd n =>
    rw [hsame _ fun _ _ => Action.noConfusion]
    exact ⟨hist, h.drain fd n⟩
  | hangup fd =>
    rw [hsame _ fun _ _ => Action.noConfusion]
    exact ⟨hist, h.updateSocket_wake fd _ (fun _ => rfl) (fun _ => rfl) fun _ => rfl⟩
  | reset fd =>
    rw [hsame _ fun _ _ => Action.noConfusion]
    exact ⟨hist, h.updateSocket_wake fd _ (fun _ => rfl) (fun _ => rfl) fun _ => rfl⟩
  | serve =>
    rw [hsame _ fun _ _ => Action.noConfusion]
    obtain ⟨hist', h', -⟩ := h.serve hreply
    exact ⟨hist', h'⟩

/-- A run in which every client waits for its replies. -/
def WaitingRun (exec : Executor σ) : Loop σ → List Action → Prop
  | _, [] => True
  | w, a :: as => waitsForReply w a ∧ WaitingRun exec (w.step exec a) as

/-- A run of waiting clients, each connecting on a descriptor that has not connected before,
keeps the invariant, with what each client sent in the run added to what it had sent. -/
theorem Waiting.run (hreply : ∀ srv command args, (exec srv command args).1 ≠ []) :
    ∀ (actions : List Action) {w : Loop σ} {used : List Nat} {sent : Nat → Bytes}
      {hist : List (Nat × (Bytes × List Bytes))}, Waiting exec srv used sent hist w →
      WaitingRun exec w actions → (connects actions).Nodup → (∀ fd ∈ connects actions, fd ∉ used) →
      ∃ used' hist', Waiting exec srv used' (fun fd => sent fd ++ sentBy fd actions) hist'
        (w.run exec actions)
  | [], w, used, sent, hist, h, _, _, _ =>
    ⟨used, hist, (funext fun _ => (List.append_nil _).symm : sent = _) ▸ h⟩
  | a :: as, w, used, sent, hist, h, hrun, hnd, hfresh => by
    rw [connects_cons] at hnd hfresh
    obtain ⟨hnd₁, hnd₂, hdis⟩ := List.nodup_append.1 hnd
    obtain ⟨hist₁, h₁⟩ := h.step hreply a hrun.1 fun fd hm => hfresh fd (List.mem_append_left _ hm)
    obtain ⟨used', hist', h'⟩ := Waiting.run hreply as h₁ hrun.2 hnd₂ fun fd hm hu =>
      (List.mem_append.1 hu).elim (fun hu => hdis hu hm) (hfresh fd (List.mem_append_right _ hm))
    refine ⟨used', hist', ?_⟩
    have hsent : (fun fd => (sent fd ++ sentBy fd [a]) ++ sentBy fd as) =
        fun fd => sent fd ++ sentBy fd (a :: as) :=
      funext fun fd => by rw [sentBy_cons fd a as, List.append_assoc]
    rw [← hsent, run_cons]
    exact h'

/-- Serving at least as many entries as the work left empties epoll's queue, keeping the
invariant. -/
theorem Waiting.serves (hreply : ∀ srv command args, (exec srv command args).1 ≠ []) :
    ∀ (n : Nat) {w : Loop σ} {hist : List (Nat × (Bytes × List Bytes))},
      Waiting exec srv used sent hist w → w.work ≤ n →
      ∃ hist', Waiting exec srv used sent hist' (w.run exec (List.replicate n .serve)) ∧
        (w.run exec (List.replicate n .serve)).ready = []
  | 0, w, hist, h, hn => by
    refine ⟨hist, h, ?_⟩
    show w.ready = []
    cases hr : w.ready with
    | nil => rfl
    | cons e rest =>
      have := entryWork_pos w e
      unfold work at hn
      rw [hr, List.map_cons, List.sum_cons] at hn
      omega
  | n + 1, w, hist, h, hn => by
    by_cases hr : w.ready = []
    · rw [run_serves_of_ready_nil exec hr]
      exact ⟨hist, h, hr⟩
    · obtain ⟨hist₁, h₁, hlt⟩ := h.serve hreply
      rw [List.replicate_succ, run_cons]
      exact Waiting.serves hreply n h₁ (by have := hlt hr; omega)

/-- With epoll's queue empty the invariant leaves nothing to do: no connection waits for
`accept`, and each open connection has nothing buffered or unread, has executed everything its
client sent, holds or has sent every reply, and leaves the rest of one queued only while its
send buffer is full. -/
theorem Waiting.quiet {w : Loop σ} (h : Waiting exec srv used sent hist w) (hr : w.ready = []) :
    w.backlog = [] ∧ ∀ fd c, w.conns.lookup fd = some c → ∃ s, w.sockets.lookup fd = some s ∧
      c.inputBuffer = [] ∧ s.unread = [] ∧ encodeCommands (ofFd fd hist) = sent fd ∧
      s.delivered ++ c.outputQueue.flatten =
        (ofFd fd (replay (execCommand exec) srv hist).1).flatten ∧
      (0 < s.room → c.outputQueue = []) := by
  refine ⟨by_contra fun hb => by simpa [hr] using h.listen hb, fun fd c hc => ?_⟩
  obtain ⟨s, hs, ho, hl⟩ := h.conns fd c hc
  have hno : .client fd ∉ w.ready := by simp [hr]
  cases ho with
  | idle hu _ _ => exact ⟨s, hs, rfl, hu, by simpa [hu] using hl.bytes, hl.answered, fun _ => rfl⟩
  | request _ _ hq => exact absurd hq hno
  | reply _ hu _ hq =>
    exact ⟨s, hs, rfl, hu, by simpa [hu] using hl.bytes, hl.answered,
      fun hroom => absurd (hq (.inl hroom)) hno⟩

/-- Clients that wait for their replies use a freshly started server in any interleaving, each
connecting on a descriptor that has not connected before and sending, before or after `accept`,
one whole command of at most `MAX_READ_SIZE` bytes at a time, only when nothing it sent before
is unread or queued; `execute_command` never answers with nothing. Then serving twice as many
entries as epoll has queued, and three times as many as connections wait for `accept`, leaves
epoll's queue and the backlog empty. The server's state is that of executing one history of the
clients' commands, in which each client's commands are a prefix of what it sent. Each open
connection has nothing buffered or unread; it has executed exactly what its client sent; what
`send` took, followed by its queue, is the replies to those commands in order; and while its
send buffer has room nothing is left queued. -/
theorem waiting_clients_go_quiet (exec : Executor σ)
    (hreply : ∀ srv command args, (exec srv command args).1 ≠ []) (srv : σ)
    (maxConnections sendBuffer : Nat) (actions : List Action) (hconnects : (connects actions).Nodup)
    (hrun : WaitingRun exec (init srv maxConnections sendBuffer) actions) (n : Nat)
    (hn : 2 * ((init srv maxConnections sendBuffer).run exec actions).ready.length +
      3 * ((init srv maxConnections sendBuffer).run exec actions).backlog.length ≤ n) :
    let w := ((init srv maxConnections sendBuffer).run exec actions).run exec (List.replicate n .serve)
    w.ready = [] ∧ w.backlog = [] ∧
      ∃ hist : List (Nat × (Bytes × List Bytes)), w.srv = (replay (execCommand exec) srv hist).2 ∧
        (∀ fd, encodeCommands (ofFd fd hist) <+: sentBy fd actions) ∧
        ∀ fd c, w.conns.lookup fd = some c → ∃ s, w.sockets.lookup fd = some s ∧
          c.inputBuffer = [] ∧ s.unread = [] ∧ encodeCommands (ofFd fd hist) = sentBy fd actions ∧
          s.delivered ++ c.outputQueue.flatten =
            (ofFd fd (replay (execCommand exec) srv hist).1).flatten ∧
          (0 < s.room → c.outputQueue = []) := by
  intro w
  obtain ⟨used, hist₁, h₁⟩ := (waiting_init srv maxConnections sendBuffer).run hreply
    actions hrun hconnects fun _ _ hm => List.not_mem_nil _ hm
  obtain ⟨hist, h, hr⟩ := h₁.serves hreply n ((work_le _ h₁.nodup).trans hn)
  obtain ⟨hb, hconns⟩ := h.quiet hr
  exact ⟨hr, hb, hist, h.server, h.executed, hconns⟩

/-- Two clients connect to a fresh server over the storage engine whose sockets have a send
buffer of `4` bytes, and each sends its command before the server has accepted it: a `SET` on
descriptor `5`, and a `GET` of the same key on `6`. Eight polls leave nothing queued; each
connection has executed its command, and its reply has gone as far as its send buffer took it. -/
theorem two_waiting_clients_answered :
    let exec := Server.executeCommand (HashTable.ops List.length) 0
    let actions := [Action.connect 5, .send 5 (encodeCommand (ascii "SET") [ascii "k", ascii "v"]),
      .connect 6, .send 6 (encodeCommand (ascii "GET") [ascii "k"])]
    let w := ((init (StorageEngine.init 64) 8 4).run exec actions).run exec (List.replicate 8 .serve)
    (∀ srv command args, (exec srv command args).1 ≠ []) ∧ (connects actions).Nodup ∧
      WaitingRun exec (init (StorageEngine.init 64) 8 4) actions ∧
      2 * ((init (StorageEngine.init 64) 8 4).run exec actions).ready.length +
        3 * ((init (StorageEngine.init 64) 8 4).run exec actions).backlog.length ≤ 8 ∧
      w.ready = [] ∧ w.backlog = [] ∧
      ∃ hist : List (Nat × (Bytes × List Bytes)),
        w.srv = (replay (execCommand exec) (StorageEngine.init 64) hist).2 ∧
        (∀ fd, encodeCommands (ofFd fd hist) <+: sentBy fd actions) ∧
        ∀ fd c, w.conns.lookup fd = some c → ∃ s, w.sockets.lookup fd = some s ∧
          c.inputBuffer = [] ∧ s.unread = [] ∧ encodeCommands (ofFd fd hist) = sentBy fd actions ∧
          s.delivered ++ c.outputQueue.flatten =
            (ofFd fd (replay (execCommand exec) (StorageEngine.init 64) hist).1).flatten ∧
          (0 < s.room → c.outputQueue = []) :=
  have hreply := Server.executeCommand_ne_nil (HashTable.ops List.length) 0
  have hrun : WaitingRun (Server.executeCommand (HashTable.ops List.length) 0) (init (StorageEngine.init 64) 8 4)
      [Action.connect 5, .send 5 (encodeCommand (ascii "SET") [ascii "k", ascii "v"]),
        .connect 6, .send 6 (encodeCommand (ascii "GET") [ascii "k"])] :=
    ⟨trivial, ⟨⟨(ascii "SET", [ascii "k", ascii "v"]), by decide, rfl, by decide⟩, ⟨_, rfl, rfl⟩, by decide⟩,
      trivial, ⟨⟨(ascii "GET", [ascii "k"]), by decide, rfl, by decide⟩, ⟨_, rfl, rfl⟩, by decide⟩, trivial⟩
  have hn : 2 * ((init (StorageEngine.init 64) 8 4).run (Server.executeCommand (HashTable.ops List.length) 0)
      [Action.connect 5, .send 5 (encodeCommand (ascii "SET") [ascii "k", ascii "v"]),
        .connect 6, .send 6 (encodeCommand (ascii "GET") [ascii "k"])]).ready.length +
      3 * ((init (StorageEngine.init 64) 8 4).run (Server.executeCommand (HashTable.ops List.length) 0)
      [Action.connect 5, .send 5 (encodeCommand (ascii "SET") [ascii "k", ascii "v"]),
        .connect 6, .send 6 (encodeCommand (ascii "GET") [ascii "k"])]).backlog.length ≤ 8 := by decide
  ⟨hreply, by decide, hrun, hn, waiting_clients_go_quiet _ hreply _ 8 4 _ (by decide) hrun 8 hn⟩

end Loop

end BlinkDb
