import BlinkDb.Analysis.ReplTokens
import BlinkDb.Analysis.StoreRefinement
import BlinkDb.Spec.KvServer

/-!
# The command line of part A serves the key-value map

A user of part A types the requests `SET key value`, `GET key` and `DEL key` at the prompt of
`main()`, with keys and values that are bare words (no whitespace, no quote), and then `quit`.
For every hash function and every budget the map stays within, whatever the clock reads at each
line, `main()` prints what the map of `BlinkDb.Spec.KvMap` answers (`mainLoop_serves_kv`):
nothing for a write, the value or `NULL` for a read, and `Does not exist.` for a delete of a
missing key; and its loop ends at `quit`.

Three results compose: `tokenize` splits the typed line into its words (`tokenize_line`),
`process_command` then makes the engine call the request names, with the ttl
`seconds::max()`, and prints what the map says (`Simulates.processCommand`), and the engine
stands for the map (`BlinkDb.Analysis.StoreRefinement`). No entry of such a session ever
expires, so the eviction thread that runs beside `main()` removes nothing.
-/

set_option autoImplicit false

namespace BlinkDb

open Repl

namespace Request

/-- The line a request is typed as: its verb and its arguments, separated by single spaces. -/
def line (req : Request) : Bytes := unwords (req.command.1 :: req.command.2)

/-- INTERNAL: every request line starts with its verb and a space. -/
theorem line_eq (req : Request) : ∃ rest, req.line = req.command.1 ++ 32 :: rest := by
  cases req <;> exact ⟨_, rfl⟩

/-- INTERNAL: a request line is neither empty nor one of the words that end `main()`'s loop. -/
theorem line_ne (req : Request) :
    req.line.isEmpty = false ∧ ¬ (req.line = ascii "quit" ∨ req.line = ascii "exit") := by
  obtain ⟨rest, h⟩ := req.line_eq
  rw [h, show ascii "quit" = [113, 117, 105, 116] from rfl, show ascii "exit" = [101, 120, 105, 116] from rfl]
  cases req <;> exact ⟨rfl, by rintro (h | h) <;> exact absurd (List.cons.inj h).1 (by decide)⟩

/-- `tokenize` splits a request line whose arguments are bare words into the verb and the
arguments. -/
theorem tokenize_line {req : Request} (h : ∀ w ∈ req.command.2, Bare w) :
    tokenize req.line = req.command.1 :: req.command.2 := by
  have hv : Bare req.command.1 := by
    have hbare : ∀ w ∈ [ascii "SET", ascii "GET", ascii "DEL"], Bare w := by
      simp only [List.mem_cons, List.mem_singleton, forall_eq_or_imp, forall_eq, List.not_mem_nil,
        false_imp_iff, implies_true, and_true]
      exact ⟨⟨⟨by decide, by decide⟩, by decide, by decide⟩, ⟨⟨by decide, by decide⟩, by decide, by decide⟩,
        ⟨⟨by decide, by decide⟩, by decide, by decide⟩⟩
    cases req
    · exact hbare _ (List.mem_cons_self _ _)
    · exact hbare _ (List.mem_cons_of_mem _ (List.mem_cons_self _ _))
    · exact hbare _ (List.mem_cons_of_mem _ (List.mem_cons_of_mem _ (List.mem_cons_self _ _)))
  have hlen := length_unwords hv.1.1 fun x hx => (h x hx).1.1
  unfold line tokenize
  simpa using loop_unwords hv h (List.forall_mem_nil _) (by omega) [] [] 0

end Request

namespace KvMap

/-- What the command line prints for a request against the map `m`: nothing for a write; the
value, or `NULL` when the key has none, for a read; `Does not exist.` for a delete of a missing
key. -/
def replLines (m : KvMap) : Request → List Bytes
  | .set _ _ => []
  | .get k => [(m.lookup k).getD (ascii "NULL")]
  | .del k => if (m.lookup k).isSome then [] else [ascii "Does not exist."]

/-- The lines printed for a sequence of requests, each against the map the earlier ones left. -/
def replSession (m : KvMap) : List Request → List Bytes
  | [] => []
  | req :: reqs => m.replLines req ++ replSession (m.answer req).2 reqs

/-- INTERNAL: a request whose arguments are bare words leaves no empty value in the map. -/
theorem answer_values {m : KvMap} (hvals : ∀ v ∈ m.map Prod.snd, v ≠ []) {req : Request}
    (hbare : ∀ w ∈ req.command.2, Bare w) : ∀ v ∈ (m.answer req).2.map Prod.snd, v ≠ [] := by
  cases req with
  | set k v =>
    intro x hx
    rcases List.mem_cons.1 hx with rfl | hx
    · exact (hbare _ (List.mem_cons_of_mem _ (List.mem_cons_self _ _))).1.1
    · exact hvals x (((List.filter_sublist _).map _).subset hx)
  | get k => exact hvals
  | del k => exact fun x hx => hvals x (((List.filter_sublist _).map _).subset hx)

end KvMap

namespace StorageEngine

variable {hash : Bytes → Nat}

/-- `process_command` on a request line whose arguments are bare words, over an engine that
stands for a map with no empty value: it prints the map's lines for the request, and the engine
then stands for the map after it. -/
theorem Simulates.processCommand {eng : StorageEngine (HashTable Bytes Entry)} {m : KvMap}
    (h : Simulates hash eng m) {req : Request} (hbare : ∀ w ∈ req.command.2, Bare w)
    (hvals : ∀ v ∈ m.map Prod.snd, v ≠ []) (hfit : (m.answer req).2.footprint ≤ eng.maxMemory)
    (now : Int) :
    (Repl.processCommand (HashTable.ops hash) now eng req.line).1 = m.replLines req ∧
      Simulates hash (Repl.processCommand (HashTable.ops hash) now eng req.line).2 (m.answer req).2 ∧
      (Repl.processCommand (HashTable.ops hash) now eng req.line).2.maxMemory = eng.maxMemory := by
  delta Repl.processCommand
  rw [Request.tokenize_line hbare]
  cases req with
  | set k v =>
    obtain ⟨hs, hmax⟩ := h.set k v now hfit
    have h1 : [uppercase (ascii "SET"), k, v].head? = some (ascii "SET") ∧
        3 ≤ [uppercase (ascii "SET"), k, v].length := ⟨rfl, le_rfl⟩
    dsimp only [Request.command]
    rw [if_pos h1]
    exact ⟨rfl, hs, hmax⟩
  | get k =>
    obtain ⟨hr, hs, hmax⟩ := h.get k now now
    have h1 : ¬ ([uppercase (ascii "GET"), k].head? = some (ascii "SET") ∧
        3 ≤ [uppercase (ascii "GET"), k].length) := fun hc => absurd (Option.some.inj hc.1) (by decide)
    have h2 : [uppercase (ascii "GET"), k].head? = some (ascii "GET") ∧
        2 ≤ [uppercase (ascii "GET"), k].length := ⟨rfl, le_rfl⟩
    dsimp only [Request.command]
    rw [if_neg h1, if_pos h2]
    refine ⟨?_, hs, hmax⟩
    show [if (eng.get (HashTable.ops hash) k now now).1.isEmpty then ascii "NULL"
      else (eng.get (HashTable.ops hash) k now now).1] = _
    rw [hr, KvMap.replLines]
    cases hl : m.lookup k with
    | none => rfl
    | some v => simp [hvals v (KvMap.mem_values_of_lookup hl)]
  | del k =>
    obtain ⟨hr, hs, hmax⟩ := h.del k
    have h1 : ¬ ([uppercase (ascii "DEL"), k].head? = some (ascii "SET") ∧
        3 ≤ [uppercase (ascii "DEL"), k].length) := fun hc => absurd (Option.some.inj hc.1) (by decide)
    have h2 : ¬ ([uppercase (ascii "DEL"), k].head? = some (ascii "GET") ∧
        2 ≤ [uppercase (ascii "DEL"), k].length) := fun hc => absurd (Option.some.inj hc.1) (by decide)
    have h3 : [uppercase (ascii "DEL"), k].head? = some (ascii "DEL") ∧
        2 ≤ [uppercase (ascii "DEL"), k].length := ⟨rfl, le_rfl⟩
    dsimp only [Request.command]
    rw [if_neg h1, if_neg h2, if_pos h3]
    refine ⟨?_, hs, hmax⟩
    show (if (eng.del (HashTable.ops hash) k).1 then _ else _) = _
    rw [hr, KvMap.replLines]

/-- The loop of `main()` over the lines of the requests, each with any clock reading, then
`quit` and anything after it, over an engine that stands for a map with no empty value: it
prints the map's lines for the requests, while the map stays within the budget, and ends at
`quit`. -/
theorem Simulates.mainLoop {eng : StorageEngine (HashTable Bytes Entry)} {m : KvMap}
    (h : Simulates hash eng m) (hvals : ∀ v ∈ m.map Prod.snd, v ≠ []) (reqs : List Request)
    (hbare : ∀ req ∈ reqs, ∀ w ∈ req.command.2, Bare w)
    (hfit : ∀ n ≤ reqs.length, (m.serve (reqs.take n)).2.footprint ≤ eng.maxMemory)
    (more : List Bytes) (inputs : List (Bytes × Int))
    (hin : inputs.map Prod.fst = reqs.map Request.line ++ ascii "quit" :: more) :
    (Repl.mainLoop (HashTable.ops hash) eng inputs).1 = m.replSession reqs ∧
      (Repl.mainLoop (HashTable.ops hash) eng inputs).2.2 = .quit := by
  induction reqs generalizing eng m inputs with
  | nil =>
    obtain ⟨⟨line, c⟩, rest, rfl, rfl⟩ : ∃ x rest, inputs = x :: rest ∧ x.1 = ascii "quit" := by
      cases inputs with
      | nil => simp at hin
      | cons x rest => exact ⟨x, rest, rfl, (List.cons.inj hin).1⟩
    rw [Repl.mainLoop, if_neg (by decide), if_pos (.inl rfl)]
    exact ⟨rfl, rfl⟩
  | cons req reqs ih =>
    obtain ⟨⟨line, c⟩, rest, rfl, rfl, hrest⟩ :
        ∃ x rest, inputs = x :: rest ∧ x.1 = req.line ∧
          rest.map Prod.fst = reqs.map Request.line ++ ascii "quit" :: more := by
      cases inputs with
      | nil => simp at hin
      | cons x rest => exact ⟨x, rest, rfl, (List.cons.inj hin).1, (List.cons.inj hin).2⟩
    have hreq := hbare req (List.mem_cons_self _ _)
    obtain ⟨hne, hquit⟩ := req.line_ne
    obtain ⟨hp, hs, hmax⟩ := h.processCommand hreq hvals (hfit 1 (Nat.succ_le_succ (Nat.zero_le _))) c
    have hfit' : ∀ n ≤ reqs.length, ((m.answer req).2.serve (reqs.take n)).2.footprint ≤
        eng.maxMemory := fun n hn => hfit (n + 1) (Nat.succ_le_succ hn)
    obtain ⟨ih1, ih2⟩ := ih hs (KvMap.answer_values hvals hreq)
      (fun r hr => hbare r (List.mem_cons_of_mem _ hr)) (hmax ▸ hfit') rest hrest
    rw [Repl.mainLoop, if_neg (by rw [hne]; exact Bool.false_ne_true), if_neg hquit]
    exact ⟨by simp only [ih1, hp, KvMap.replSession], ih2⟩

end StorageEngine

namespace Repl

open StorageEngine (simulates_init)

/-- A user of part A types, at the prompt of `main()`, any requests `SET key value`, `GET key`
and `DEL key` whose keys and values are bare words, then `quit` and anything after it, with any
clock reading at each line. Behind the loop stands a freshly constructed engine, with any hash
function and any budget the map stays within. Then `main()` prints, in order, the lines the
key-value map gives for the requests: nothing for a write, the value or `NULL` for a read,
`Does not exist.` for a delete of a missing key; and its loop ends at `quit`. -/
theorem mainLoop_serves_kv (hash : Bytes → Nat) (maxMemory : Nat) (reqs : List Request)
    (hbare : ∀ req ∈ reqs, ∀ w ∈ req.command.2, Bare w)
    (hfit : ∀ n ≤ reqs.length, (KvMap.serve [] (reqs.take n)).2.footprint ≤ maxMemory)
    (more : List Bytes) (inputs : List (Bytes × Int))
    (hin : inputs.map Prod.fst = reqs.map Request.line ++ ascii "quit" :: more) :
    (mainLoop (HashTable.ops hash) (StorageEngine.init maxMemory) inputs).1 =
        KvMap.replSession [] reqs ∧
      (mainLoop (HashTable.ops hash) (StorageEngine.init maxMemory) inputs).2.2 = .quit :=
  (simulates_init maxMemory : StorageEngine.Simulates hash _ []).mainLoop
    (fun _ h => absurd h (List.not_mem_nil _)) reqs hbare hfit more inputs hin

/-- `SET k v`, `GET k`, `DEL k`, `GET k`, `DEL k`, `quit`, every line at clock reading `0`:
`main()` prints `v`, `NULL` and `Does not exist.`. -/
theorem main_set_get_del_quit :
    let reqs := [Request.set (ascii "k") (ascii "v"), .get (ascii "k"), .del (ascii "k"),
      .get (ascii "k"), .del (ascii "k")]
    let inputs := (reqs.map Request.line ++ [ascii "quit"]).map fun l => (l, (0 : Int))
    (∀ req ∈ reqs, ∀ w ∈ req.command.2, Bare w) ∧
      (∀ n ≤ reqs.length, (KvMap.serve [] (reqs.take n)).2.footprint ≤ 64) ∧
      inputs.map Prod.fst = reqs.map Request.line ++ [ascii "quit"] ∧
      (mainLoop (HashTable.ops List.length) (StorageEngine.init 64) inputs).1 =
        KvMap.replSession [] reqs ∧
      (mainLoop (HashTable.ops List.length) (StorageEngine.init 64) inputs).2.2 = .quit ∧
      KvMap.replSession [] reqs = [ascii "v", ascii "NULL", ascii "Does not exist."] := by
  intro reqs inputs
  have hk : Bare (ascii "k") := ⟨⟨by decide, by decide⟩, by decide, by decide⟩
  have hv : Bare (ascii "v") := ⟨⟨by decide, by decide⟩, by decide, by decide⟩
  have hbare : ∀ req ∈ reqs, ∀ w ∈ req.command.2, Bare w := by
    intro req hreq w hw
    simp only [reqs, List.mem_cons, List.mem_nil_iff, or_false] at hreq
    rcases hreq with rfl | rfl | rfl | rfl | rfl <;>
      simp only [Request.command, List.mem_cons, List.mem_nil_iff, or_false] at hw <;>
      rcases hw with rfl | rfl <;> assumption
  have hin : inputs.map Prod.fst = reqs.map Request.line ++ [ascii "quit"] := by
    simp [inputs, Function.comp_def]
  obtain ⟨hlines, hquit⟩ := mainLoop_serves_kv List.length 64 reqs hbare (by decide) [] inputs hin
  exact ⟨hbare, by decide, hin, hlines, hquit, by decide⟩

end Repl

end BlinkDb
