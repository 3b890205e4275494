import BlinkDb.Spec.KvServer
import BlinkDb.Model.Server
import BlinkDb.Analysis.StoreRefinement
import BlinkDb.Analysis.Framing

/-!
# One connection serves the key-value protocol

From the bytes a client sends to the bytes the server sends back. The client of one connection
sends the commands of any requests, the transport cuts them into chunks, and `send` takes the
replies a piece at a time, as in `BlinkDb.Analysis.Framing`. Behind `execute_command` stands a
freshly constructed storage engine. While the keys and values fit `std::stoi` and the map stays
within the engine's budget, what `send` has accepted followed by the output queue is the RESP-2
encoding of the map's answers, in order (`session_serves_kv`).

Three results compose here: the framing of `process_commands` (each command executed once, in
order, its response queued in order), the handlers, which encode the engine's answer as
`KvMap.answer` does (`Simulates.executeCommand`), and the store's refinement of the map
(`BlinkDb.Analysis.StoreRefinement`). No `SET` of the protocol has an `EX`, so every entry keeps
the sentinel ttl and the clock reading of `executeCommand` does not matter.
-/

set_option autoImplicit false

namespace BlinkDb

open Connection (Fits encodeCommands runCommands)

variable {hash : Bytes → Nat} (now : Int)

namespace StorageEngine

/-- One request through `execute_command` over an engine that stands for `m`: the response is
the encoding of the map's answer, and the engine then stands for the map after it. -/
theorem Simulates.executeCommand {eng : StorageEngine (HashTable Bytes Entry)} {m : KvMap}
    (h : Simulates hash eng m) (req : Request) (hfit : (m.answer req).2.footprint ≤ eng.maxMemory) :
    (Server.executeCommand (HashTable.ops hash) now eng (uppercase req.command.1) req.command.2).1 =
        RespProtocol.encode (m.answer req).1 ∧
      Simulates hash (Server.executeCommand (HashTable.ops hash) now eng (uppercase req.command.1)
        req.command.2).2 (m.answer req).2 ∧
      (Server.executeCommand (HashTable.ops hash) now eng (uppercase req.command.1)
        req.command.2).2.maxMemory = eng.maxMemory := by
  cases req with
  | set k v =>
    obtain ⟨hs, hmax⟩ := h.set k v now hfit
    simp only [Request.command, show uppercase (ascii "SET") = ascii "SET" by decide,
      Server.executeCommand, if_true, Server.setHandler]
    exact ⟨rfl, hs, hmax⟩
  | get k =>
    obtain ⟨hr, hs, hmax⟩ := h.get k now now
    simp only [Request.command, show uppercase (ascii "GET") = ascii "GET" by decide,
      Server.executeCommand, show ascii "GET" ≠ ascii "SET" by decide, if_false, if_true,
      Server.getHandler, hr]
    refine ⟨?_, hs, hmax⟩
    simp only [KvMap.answer]
    rcases m.lookup k with _ | ⟨_ | ⟨b, bs⟩⟩ <;> rfl
  | del k =>
    obtain ⟨hr, hs, hmax⟩ := h.del k
    simp only [Request.command, show uppercase (ascii "DEL") = ascii "DEL" by decide,
      Server.executeCommand, show ascii "DEL" ≠ ascii "SET" by decide,
      show ascii "DEL" ≠ ascii "GET" by decide, if_false, if_true, Server.delHandler, hr]
    refine ⟨?_, hs, hmax⟩
    simp only [KvMap.answer]
    cases (m.lookup k).isSome <;> rfl

/-- The requests through `execute_command` in order, over an engine that stands for `m`, while
the map after each fits the budget: the responses are the encodings of the map's answers. -/
theorem Simulates.runCommands {eng : StorageEngine (HashTable Bytes Entry)} {m : KvMap}
    (h : Simulates hash eng m) (reqs : List Request)
    (hfit : ∀ n ≤ reqs.length, (m.serve (reqs.take n)).2.footprint ≤ eng.maxMemory) :
    (runCommands (Server.executeCommand (HashTable.ops hash) now) eng (reqs.map Request.command)).1 =
      (m.serve reqs).1.map RespProtocol.encode := by
  induction reqs generalizing eng m with
  | nil => rfl
  | cons req reqs ih =>
    obtain ⟨hr, hs, hmax⟩ := h.executeCommand now req (hfit 1 (Nat.succ_le_succ (Nat.zero_le _)))
    have hfit' : ∀ n ≤ reqs.length, ((m.answer req).2.serve (reqs.take n)).2.footprint ≤
        eng.maxMemory := fun n hn => hfit (n + 1) (Nat.succ_le_succ hn)
    simp only [List.map_cons, Connection.runCommands, KvMap.serve, hr, ih hs (hmax ▸ hfit')]

end StorageEngine

namespace ConnWorld

open StorageEngine (simulates_init)

/-- The client of one connection sends the commands of any key-value requests whose keys and
values `std::stoi` accepts, the transport cuts them into chunks that never trip the 10 MiB guard,
and `send` takes any part of the front reply or fails with `EAGAIN`. Behind `execute_command`
stands a freshly constructed engine, with any hash function and any budget the map stays
within. Then the connection stays open, every byte is consumed, and what `send` has accepted
followed by the output queue is the RESP-2 encoding of the map's answers, in order. -/
theorem session_serves_kv (hash : Bytes → Nat) (maxMemory : Nat) (reqs : List Request)
    (events : List ConnEvent) (hreqs : ∀ req ∈ reqs, Fits req.command)
    (hfit : ∀ n ≤ reqs.length, (KvMap.serve [] (reqs.take n)).2.footprint ≤ maxMemory)
    (hadm : admissible (Server.executeCommand (HashTable.ops hash) now)
      (init (StorageEngine.init maxMemory)) events = true)
    (hS : received events = encodeCommands (reqs.map Request.command)) :
    ∃ w, (init (StorageEngine.init maxMemory)).run (Server.executeCommand (HashTable.ops hash) now)
        events = some w ∧ w.conn.inputBuffer = [] ∧
      w.sent ++ w.conn.outputQueue.flatten =
        ((KvMap.serve [] reqs).1.map RespProtocol.encode).flatten := by
  have hcmds : ∀ cmd ∈ reqs.map Request.command, Fits cmd := by
    simpa only [List.forall_mem_map] using hreqs
  obtain ⟨w, k, hrun, hf⟩ := (framed_init (Server.executeCommand (HashTable.ops hash) now)).run _
    hcmds events hadm (by rw [List.nil_append, hS])
  rw [List.nil_append, hS] at hf
  obtain ⟨htake, hbuf⟩ := hf.complete
  refine ⟨w, hrun, hbuf, ?_⟩
  rw [hf.responses, htake, (simulates_init maxMemory).runCommands now reqs hfit]

/-- The first scenario of the specification, pipelined: `SET k v`, `GET k`, `DEL k`, `GET k`,
sent in two chunks that cut the second command, with a partial `send` and an `EAGAIN` between
them. -/
theorem session_serves_basic_requests :
    let reqs := [Request.set (ascii "k") (ascii "v"), .get (ascii "k"), .del (ascii "k"),
      .get (ascii "k")]
    let exec := Server.executeCommand (HashTable.ops List.length) 0
    let events := [ConnEvent.read ((encodeCommands (reqs.map Request.command)).take 30),
      .write (.sent 3), .write (.error .wouldBlock),
      .read ((encodeCommands (reqs.map Request.command)).drop 30)]
    (∀ req ∈ reqs, Fits req.command) ∧
      (∀ n ≤ reqs.length, (KvMap.serve [] (reqs.take n)).2.footprint ≤ 64) ∧
      admissible exec (init (StorageEngine.init 64)) events = true ∧
      received events = encodeCommands (reqs.map Request.command) ∧
      ∃ w, (init (StorageEngine.init 64)).run exec events = some w ∧ w.conn.inputBuffer = [] ∧
        w.sent ++ w.conn.outputQueue.flatten =
          ((KvMap.serve [] reqs).1.map RespProtocol.encode).flatten :=
  ⟨by decide, by decide, by decide, by decide,
    session_serves_kv 0 List.length 64 _ _ (by decide) (by decide) (by decide) (by decide)⟩

end ConnWorld

end BlinkDb
