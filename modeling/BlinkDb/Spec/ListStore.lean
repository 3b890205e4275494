import BlinkDb.Model.StorageEngine

/-!
# The engine over a list of nodes

The abstract store of part A: the table as the plain list of its nodes, one per key.
`listOps` gives the four calls the engine makes on its table their map meaning: `get` is the
lookup, `insert` puts the key's node first and drops its old one, `remove` drops it, and the
walk of `evict_expired` visits the list. The engine's definitions run over it unchanged, and
`BlinkDb.Analysis.EngineRefinement` shows that over the source's chained hash table they give
the same replies, queue and counters, for every hash function. Runs of the list engine are
small closed terms, so a run of the engine at fixed inputs is evaluated here by `decide`.

The batch loop of `evict_expired` has a closed form over the list (`foldl_removeKey_list`): it
drops the nodes of the collected keys and the keys from the queue, in any order of the keys.
-/

set_option autoImplicit false

namespace BlinkDb

/-- The table as the list of its nodes. -/
def listOps : TableOps (List (Bytes × Entry)) where
  get l k := l.lookup k
  insert l k e := (k, e) :: l.filter fun n => n.1 ≠ k
  remove l k := ((l.lookup k).isSome, l.filter fun n => n.1 ≠ k)
  nodes l := l

section
variable (l : List (Bytes × Entry)) (k : Bytes)

/-- `get` on the list is its lookup. -/
@[simp] theorem listOps_get : listOps.get l k = l.lookup k := rfl
/-- `insert` on the list puts the node in front of the others. -/
@[simp] theorem listOps_insert (e : Entry) :
    listOps.insert l k e = (k, e) :: l.filter fun n => n.1 ≠ k := rfl
/-- `remove` on the list drops the key's node and says whether there was one. -/
@[simp] theorem listOps_remove :
    listOps.remove l k = ((l.lookup k).isSome, l.filter fun n => n.1 ≠ k) := rfl
/-- The nodes of the list are the list. -/
@[simp] theorem listOps_nodes : listOps.nodes l = l := rfl

end

namespace StorageEngine

/-- A freshly constructed engine over the list. -/
def initList (maxMemory : Nat) : StorageEngine (List (Bytes × Entry)) := ⟨[], ⟨[]⟩, 0, maxMemory⟩

/-- The batch loop of `evict_expired` over the list drops the nodes of the keys `ks` and the
keys themselves from the queue. -/
theorem foldl_removeKey_list (a : StorageEngine (List (Bytes × Entry))) (ks : List Bytes) :
    ks.foldl (removeKey listOps) a =
      { a with store := a.store.filter (fun n => n.1 ∉ ks)
               memManager := ⟨a.memManager.lruQueue.filter fun k => k ∉ ks⟩ } := by
  induction ks generalizing a with
  | nil => simp
  | cons k ks ih =>
    rw [List.foldl_cons, ih]
    simp only [removeKey, removeEntry, evictKey, MemoryManager.evictLruKey, listOps_remove, List.filter_filter,
      List.mem_cons, not_or]
    congr 3
    · funext x; simp [Bool.and_comm]
    · funext x; by_cases hx : x = k <;> simp [hx]

end StorageEngine

end BlinkDb
