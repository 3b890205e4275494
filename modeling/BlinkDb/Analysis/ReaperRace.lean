import BlinkDb.Model.Reaper
import BlinkDb.Analysis.EngineRefinement

/-!
# The reaper's pass against the clients

Run with no client call in between, the reaper's pass is `evict_expired` (`run_pass_alone`):
the step model adds interleavings and changes nothing else. With a call in between, the pass
removes what its scan collected whatever happened to the key since: a `set` of a collected
key that lands between the scan and the round for that key is removed by that round
(`reaper_removes_entry_set_after_scan`), a lost update, for every hash function. A `set` that
lands inside the round, after `store.remove(key)` and before `mem_manager.evict_lru(key)`,
keeps its entry, and the second half takes the key out of the queue under it
(`set_mid_round_strands_key` in `BlinkDb.Analysis.EngineBudget`).
-/

set_option autoImplicit false

namespace BlinkDb

namespace System

open StorageEngine

variable {T : Type} (ops : TableOps T)

/-- The reaper's steps of a batch loop over `n` keys: both halves of each round, and the step
that ends the pass. -/
def batchSteps : Nat → List Event
  | 0 => [.removeNext]
  | n + 1 => .removeNext :: .evictNext :: batchSteps n

/-- The batch loop, run to its end with no call in between, removes the keys in order and
leaves the reaper idle. -/
theorem run_removing (e : StorageEngine T) (ks : List Bytes) :
    run ops ⟨e, .removing ks⟩ (batchSteps ks.length) = some ⟨ks.foldl (removeKey ops) e, .idle⟩ := by
  induction ks generalizing e with
  | nil => rfl
  | cons k ks ih => exact ih (e.removeKey ops k)

/-- A whole pass of the reaper with no client call in between is `evict_expired`. -/
theorem run_pass_alone (e : StorageEngine T) (now : Int) :
    (System.init e).run ops (.scan now :: batchSteps (expiredKeys ops e.store now).length) =
      some ⟨e.evictExpired ops now, .idle⟩ :=
  run_removing ops e _

end System

namespace StorageEngine

/-- `set("k", "v", 0s)` at `0`; the reaper scans at `5` ns and collects `"k"`; `set("k", "w")`
with the sentinel ttl at `6` ns; the reaper's next round removes `"k"`. The entry it removes
was written after the scan and never expires. -/
theorem reaper_removes_entry_set_after_scan (hash : Bytes → Nat) :
    (∀ t, (⟨[119], secondsMax, 6⟩ : Entry).expiredAt t = false) ∧
      ((System.init (init defaultMaxMemory)).run (HashTable.ops hash)
          [.set [107] [118] 0 0, .scan 5, .set [107] [119] secondsMax 6]).map
          (fun sys => sys.engine.store.get hash [107]) = some (some ⟨[119], secondsMax, 6⟩) ∧
      ((System.init (init defaultMaxMemory)).run (HashTable.ops hash)
          [.set [107] [118] 0 0, .scan 5, .set [107] [119] secondsMax 6, .removeNext]).map
          (fun sys => sys.engine.store.get hash [107]) = some none := by
  have h1 := (refines_init hash defaultMaxMemory).set [107] [118] 0 0
  have hks : expiredKeys (HashTable.ops hash)
      ((init defaultMaxMemory).set (HashTable.ops hash) [107] [118] 0 0).store 5 = [[107]] :=
    List.perm_singleton.1 ((expiredKeys_ops h1.wf h1.perm 5).trans (List.Perm.of_eq (by decide)))
  have h2 := h1.set [107] [119] secondsMax 6
  have h3 := h2.removeEntry [107]
  simp only [System.run, System.step, System.init, hks, Option.some_bind, Option.map_some']
  refine ⟨fun t => by simp [Entry.expiredAt], ?_, ?_⟩
  · rw [← HashTable.ops_get, get_ops h2.wf h2.perm]; decide
  · rw [← HashTable.ops_get, get_ops h3.wf h3.perm]; decide

end StorageEngine

end BlinkDb
