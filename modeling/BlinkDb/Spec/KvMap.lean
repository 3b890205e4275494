import BlinkDb.Model.StorageEngine
import BlinkDb.Analysis.HashTableMap

/-!
# The key-value map the store stands for

The abstract model of part A: a finite map from keys to values, as the list of its live pairs,
one per key. `KvMap.step` answers each call of the engine's interface as a map does, and
`expectedReplies` states the same answers directly over the history of calls: `get(k)` the
value of the most recent `set(k, ·)` that no `del(k)` followed, `""` when there is none, and
`del(k)` whether there is one. `run_eq_expectedReplies` says the two agree.

`KvMap.footprint` is the byte count `Σ key.size() + value.size()` over the live pairs, the
quantity `current_memory` is meant to hold.
-/

set_option autoImplicit false

open scoped List

namespace BlinkDb

open StorageEngine (Op Reply)
open HashTable (keys lookup_cons_pair lookup_filter_ne)

/-- The live pairs of a store, one per key. -/
abbrev KvMap := List (Bytes × Bytes)

namespace KvMap

/-- `k` now holds `v`. -/
def set (m : KvMap) (k v : Bytes) : KvMap := (k, v) :: m.filter fun p => p.1 ≠ k

/-- `k` holds nothing. -/
def erase (m : KvMap) (k : Bytes) : KvMap := m.filter fun p => p.1 ≠ k

/-- `Σ key.size() + value.size()` over the live pairs. -/
def footprint : KvMap → Nat
  | [] => 0
  | p :: m => p.1.length + p.2.length + footprint m

/-- One call against the map. The reaper's pass has nothing to do. -/
def step (m : KvMap) : Op → Reply × KvMap
  | .set k v _ _ => (.done, m.set k v)
  | .get k _ _ => (.value ((m.lookup k).getD []), m)
  | .del k => (.deleted (m.lookup k).isSome, m.erase k)
  | .evictExpired _ => (.done, m)

/-- A sequence of calls against the map: the replies in order and the final map. -/
def run (m : KvMap) : List Op → List Reply × KvMap
  | [] => ([], m)
  | op :: ops => let r := step m op; let rest := run r.2 ops; (r.1 :: rest.1, rest.2)

/-- The footprint does not depend on the order of the pairs. -/
theorem footprint_perm {m m' : KvMap} (h : m ~ m') : m.footprint = m'.footprint := by
  induction h with
  | nil => rfl
  | cons p _ ih => simp only [footprint, ih]
  | swap p q m => simp only [footprint]; omega
  | trans _ _ ih₁ ih₂ => exact ih₁.trans ih₂

/-- A value the map finds is the value of one of its pairs. -/
theorem mem_values_of_lookup {m : KvMap} {k v : Bytes} (h : m.lookup k = some v) :
    v ∈ m.map Prod.snd := by
  induction m with
  | nil => simp at h
  | cons p m ih =>
    obtain ⟨a, b⟩ := p
    rw [lookup_cons_pair] at h
    split at h
    · cases h; exact List.mem_cons_self _ _
    · exact List.mem_cons_of_mem _ (ih h)

end KvMap

/-! ## The replies over the history of calls -/

/-- The value of the most recent `set(k, ·)` among `ops` that no `del(k)` follows. -/
def latestSet (k : Bytes) (ops : List Op) : Option Bytes :=
  ops.foldl (fun acc op => match op with
    | .set k' v _ _ => if k' = k then some v else acc
    | .del k' => if k' = k then none else acc
    | _ => acc) none

/-- What a call returns after the calls `before`: `get(k)` the value of the most recent
`set(k, ·)` not followed by a `del(k)`, `""` when there is none; `del(k)` whether there is one. -/
def expectedReply (before : List Op) : Op → Reply
  | .get k _ _ => .value ((latestSet k before).getD [])
  | .del k => .deleted (latestSet k before).isSome
  | _ => .done

/-- The replies of a run, call by call, each after the calls before it. -/
def expectedReplies (before : List Op) : List Op → List Reply
  | [] => []
  | op :: ops => expectedReply before op :: expectedReplies (before ++ [op]) ops

/-- INTERNAL: the latest write of a key after one more call. -/
theorem latestSet_append (k : Bytes) (before : List Op) (op : Op) :
    latestSet k (before ++ [op]) = match op with
      | .set k' v _ _ => if k' = k then some v else latestSet k before
      | .del k' => if k' = k then none else latestSet k before
      | _ => latestSet k before := by
  simp only [latestSet, List.foldl_append, List.foldl_cons, List.foldl_nil]

/-- The map answers as the history says, from any map that holds the latest values of a
history. -/
theorem KvMap.run_eq_expectedReplies (m : KvMap) (before ops : List Op)
    (hm : ∀ k, m.lookup k = latestSet k before) :
    (KvMap.run m ops).1 = expectedReplies before ops := by
  induction ops generalizing m before with
  | nil => rfl
  | cons op ops ih =>
    simp only [KvMap.run, expectedReplies]
    cases op with
    | set k v ttl now =>
      refine congrArg₂ _ rfl (ih _ _ fun k' => ?_)
      simp only [KvMap.step, KvMap.set, lookup_cons_pair, latestSet_append,
        lookup_filter_ne, hm]
      by_cases h : k = k' <;> simp [h, eq_comm]
    | get k now checked =>
      simp only [KvMap.step, expectedReply, hm]
      exact congrArg₂ _ rfl (ih _ _ fun k' => by rw [latestSet_append, ← hm])
    | del k =>
      refine congrArg₂ _ (by simp [KvMap.step, expectedReply, hm]) (ih _ _ fun k' => ?_)
      simp only [KvMap.step, KvMap.erase, latestSet_append, lookup_filter_ne, hm]
      by_cases h : k = k' <;> simp [h, eq_comm]
    | evictExpired now =>
      exact congrArg₂ _ rfl (ih _ _ fun k' => by rw [latestSet_append, ← hm]; rfl)

end BlinkDb
