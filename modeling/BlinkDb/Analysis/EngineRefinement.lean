import BlinkDb.Spec.ListStore
import BlinkDb.Analysis.HashTableMap

/-!
# The engine over the hash table refines the engine over a list

`Refines hash s a` ties an engine over the source's chained hash table to an engine over the
list of `BlinkDb.Spec.ListStore`: the table is well formed and its nodes are the list's up to
order, and the queue and both counters are equal. Each of the four table calls keeps the
relation and answers alike (`get_ops`, `insert_ops`, `remove_ops`, `expiredKeys_ops`); from
these, each call of the engine does (`Refines.set`, `Refines.get`, `Refines.del`,
`Refines.evictExpired`), and `Refines.run` carries the relation along a whole run.

So for every hash function the source's engine answers every run as the list engine does,
with the same queue and counters and the same nodes. The pass of `evict_expired` visits the
nodes in bucket order, which depends on the hash function, but its result does not: the batch
loop removes the same keys in any order. On every state a run reaches, `evict_expired` keeps
exactly the nodes that are not expired, each as it was, and drops exactly the expired nodes'
keys from the queue, whatever resizes its removals trigger (`evictExpired_removes_expired`).
Expired there is the code's test, over `int64` nanoseconds: for ttls within `±9223372036` s it
is the exact comparison (`expiredAt_of_bounded`), and beyond that the converted ttl wraps.

Runs from a freshly constructed engine, evaluated on the list engine and carried over by
`Refines.run`, show where the table, the queue and `current_memory` stop agreeing:
`evict_expired` removes an expired entry and leaves its bytes counted; the expiry branch of
`get` (`get_of_lookup`) also leaves the key queued; and `get` writes `last_accessed = now` back
before it tests the ttl, so an entry that had expired before the call is answered and kept.
-/

set_option autoImplicit false

open scoped List

namespace BlinkDb

namespace StorageEngine

open HashTable (keys entries WellFormed)

variable {hash : Bytes → Nat}

/-! ## The table calls -/

section Table

variable {t : HashTable Bytes Entry} {l : List (Bytes × Entry)}

/-- INTERNAL: `get` answers as the lookup in the list. -/
theorem get_ops (hw : t.WellFormed hash) (hp : t.entries ~ l) (k : Bytes) :
    (HashTable.ops hash).get t k = listOps.get l k :=
  hw.get_eq_lookup hp k

/-- INTERNAL: `insert` keeps the relation. -/
theorem insert_ops (hw : t.WellFormed hash) (hp : t.entries ~ l) (k : Bytes) (e : Entry) :
    ((HashTable.ops hash).insert t k e).WellFormed hash ∧
      ((HashTable.ops hash).insert t k e).entries ~ listOps.insert l k e :=
  ⟨(hw.insert k e).1, (hw.insert k e).2.trans ((hp.filter _).cons _)⟩

/-- INTERNAL: `remove` answers alike and keeps the relation. -/
theorem remove_ops (hw : t.WellFormed hash) (hp : t.entries ~ l) (k : Bytes) :
    ((HashTable.ops hash).remove t k).1 = (listOps.remove l k).1 ∧
      ((HashTable.ops hash).remove t k).2.WellFormed hash ∧
      ((HashTable.ops hash).remove t k).2.entries ~ (listOps.remove l k).2 := by
  obtain ⟨hw', hp', hb⟩ := hw.remove k
  refine ⟨?_, hw', hp'.trans (hp.filter _)⟩
  simp only [HashTable.ops_remove, hb, listOps_remove, HashTable.isSome_lookup,
    (hp.map Prod.fst).mem_iff]

/-- INTERNAL: the scan of `evict_expired` collects the same keys, in bucket order. -/
theorem expiredKeys_ops (hw : t.WellFormed hash) (hp : t.entries ~ l) (now : Int) :
    expiredKeys (HashTable.ops hash) t now ~ expiredKeys listOps l now := by
  simp only [expiredKeys, HashTable.ops_nodes, hw.flatMap_range_bucket, listOps_nodes]
  exact (hp.filter _).map _

end Table

/-! ## The engine's calls -/

/-- The engine over the hash table stands for the engine over the list `a`. -/
structure Refines (hash : Bytes → Nat) (s : StorageEngine (HashTable Bytes Entry))
    (a : StorageEngine (List (Bytes × Entry))) : Prop where
  wf : s.store.WellFormed hash
  perm : s.store.entries ~ a.store
  memManager : s.memManager = a.memManager
  currentMemory : s.currentMemory = a.currentMemory
  maxMemory : s.maxMemory = a.maxMemory

variable {s : StorageEngine (HashTable Bytes Entry)} {a : StorageEngine (List (Bytes × Entry))}

/-- Each round of the eviction loop keeps the relation. -/
theorem Refines.enforceLoop (h : Refines hash s a) (fuel : Nat) :
    Refines hash (enforceLoop (HashTable.ops hash) fuel s) (enforceLoop listOps fuel a) := by
  induction fuel generalizing s a with
  | zero => exact h
  | succ fuel ih =>
    obtain ⟨hw, hp, hm, hc, hx⟩ := h
    simp only [StorageEngine.enforceLoop, hm, hc, hx, get_ops hw hp]
    split_ifs
    · exact ⟨hw, hp, rfl, rfl, rfl⟩
    · split
      · obtain ⟨-, hw', hp'⟩ := remove_ops hw hp (a.memManager.evictLru.1)
        exact ih ⟨hw', hp', rfl, rfl, rfl⟩
      · exact ih ⟨hw, hp, rfl, rfl, rfl⟩
    · exact ⟨hw, hp, hm, hc, hx⟩

/-- `enforce_memory_limits` keeps the relation. -/
theorem Refines.enforceMemoryLimits (h : Refines hash s a) :
    Refines hash (enforceMemoryLimits (HashTable.ops hash) s) (enforceMemoryLimits listOps a) := by
  rw [StorageEngine.enforceMemoryLimits, StorageEngine.enforceMemoryLimits, h.memManager]
  exact h.enforceLoop _

/-- `set` keeps the relation. -/
theorem Refines.set (h : Refines hash s a) (k v : Bytes) (ttl now : Int) :
    Refines hash (s.set (HashTable.ops hash) k v ttl now) (a.set listOps k v ttl now) := by
  obtain ⟨hw, hp, hm, hc, hx⟩ := h
  obtain ⟨hw', hp'⟩ := insert_ops hw hp k ⟨v, ttl, now⟩
  simp only [StorageEngine.set, get_ops hw hp]
  exact Refines.enforceMemoryLimits ⟨hw', hp', by rw [hm], by rw [hc], hx⟩

/-- `get` answers alike and keeps the relation. -/
theorem Refines.get (h : Refines hash s a) (k : Bytes) (now checked : Int) :
    (s.get (HashTable.ops hash) k now checked).1 = (a.get listOps k now checked).1 ∧
      Refines hash (s.get (HashTable.ops hash) k now checked).2 (a.get listOps k now checked).2 := by
  obtain ⟨hw, hp, hm, hc, hx⟩ := h
  simp only [StorageEngine.get, get_ops hw hp]
  split
  · exact ⟨rfl, hw, hp, hm, hc, hx⟩
  · rename_i e _
    obtain ⟨hw', hp'⟩ := insert_ops hw hp k { e with lastAccessed := now }
    split
    · obtain ⟨-, hw'', hp''⟩ := remove_ops hw' hp' k
      exact ⟨rfl, hw'', hp'', hm, hc, hx⟩
    · exact ⟨rfl, hw', hp', by rw [hm], hc, hx⟩

/-- `del` answers alike and keeps the relation. -/
theorem Refines.del (h : Refines hash s a) (k : Bytes) :
    (s.del (HashTable.ops hash) k).1 = (a.del listOps k).1 ∧
      Refines hash (s.del (HashTable.ops hash) k).2 (a.del listOps k).2 := by
  obtain ⟨hw, hp, hm, hc, hx⟩ := h
  obtain ⟨-, hw', hp'⟩ := remove_ops hw hp k
  simp only [StorageEngine.del, get_ops hw hp]
  split
  · exact ⟨rfl, hw, hp, hm, hc, hx⟩
  · exact ⟨rfl, hw', hp', by rw [hm], by rw [hc], hx⟩

/-- The first half of a round of the batch loop of `evict_expired`, `store.remove(key)`, keeps
the relation. -/
theorem Refines.removeEntry (h : Refines hash s a) (k : Bytes) :
    Refines hash (s.removeEntry (HashTable.ops hash) k) (a.removeEntry listOps k) :=
  have hr := remove_ops h.wf h.perm k
  ⟨hr.2.1, hr.2.2, h.memManager, h.currentMemory, h.maxMemory⟩

/-- So does the second half, `mem_manager.evict_lru(key)`. -/
theorem Refines.evictKey (h : Refines hash s a) (k : Bytes) :
    Refines hash (s.evictKey k) (a.evictKey k) :=
  ⟨h.wf, h.perm, by rw [StorageEngine.evictKey, StorageEngine.evictKey, h.memManager],
    h.currentMemory, h.maxMemory⟩

/-- INTERNAL: and so does the whole round. -/
theorem Refines.removeKey (h : Refines hash s a) (k : Bytes) :
    Refines hash (s.removeKey (HashTable.ops hash) k) (a.removeKey listOps k) :=
  (h.removeEntry k).evictKey k

/-- INTERNAL: so do the rounds for a list of keys. -/
theorem Refines.foldl_removeKey (h : Refines hash s a) (ks : List Bytes) :
    Refines hash (ks.foldl (StorageEngine.removeKey (HashTable.ops hash)) s)
      (ks.foldl (StorageEngine.removeKey listOps) a) := by
  induction ks generalizing s a with
  | nil => exact h
  | cons k ks ih => exact ih (h.removeKey k)

/-- `evict_expired` keeps the relation: the scans collect the same keys up to order, and the
batch loop's result does not depend on their order. -/
theorem Refines.evictExpired (h : Refines hash s a) (now : Int) :
    Refines hash (s.evictExpired (HashTable.ops hash) now) (a.evictExpired listOps now) := by
  have hks := expiredKeys_ops h.wf h.perm now
  have e : (expiredKeys (HashTable.ops hash) s.store now).foldl (StorageEngine.removeKey listOps) a =
      (expiredKeys listOps a.store now).foldl (StorageEngine.removeKey listOps) a := by
    simp only [foldl_removeKey_list, hks.mem_iff]
  rw [StorageEngine.evictExpired, StorageEngine.evictExpired, ← e]
  exact h.foldl_removeKey _

/-- Every call answers alike and keeps the relation. -/
theorem Refines.step (h : Refines hash s a) (op : Op) :
    (s.step (HashTable.ops hash) op).1 = (a.step listOps op).1 ∧
      Refines hash (s.step (HashTable.ops hash) op).2 (a.step listOps op).2 := by
  cases op with
  | set k v ttl now => exact ⟨rfl, h.set k v ttl now⟩
  | get k now checked => exact ⟨congrArg Reply.value (h.get k now checked).1, (h.get k now checked).2⟩
  | del k => exact ⟨congrArg Reply.deleted (h.del k).1, (h.del k).2⟩
  | evictExpired now => exact ⟨rfl, h.evictExpired now⟩

/-- The relation holds along a whole run, and the replies agree. -/
theorem Refines.run (h : Refines hash s a) (ops : List Op) :
    (s.run (HashTable.ops hash) ops).1 = (a.run listOps ops).1 ∧
      Refines hash (s.run (HashTable.ops hash) ops).2 (a.run listOps ops).2 := by
  induction ops generalizing s a with
  | nil => exact ⟨rfl, h⟩
  | cons op ops ih =>
    obtain ⟨hr, h'⟩ := h.step op
    obtain ⟨hr', h''⟩ := ih h'
    exact ⟨by simp only [StorageEngine.run, hr, hr'], h''⟩

/-- The freshly constructed engines are related. -/
theorem refines_init (hash : Bytes → Nat) (maxMemory : Nat) :
    Refines hash (init maxMemory) (initList maxMemory) :=
  ⟨HashTable.wellFormed_empty (by decide), by simp [HashTable.entries, init, HashTable.empty, initList],
    rfl, rfl, rfl⟩

/-! ## `get` of a key the table holds -/

/-- `get` of a key the list holds: it writes the entry back touched at `now`. When the touched
entry is expired at `checked`, it answers `""` and drops the node, leaving the queue and the count
as they were; otherwise it answers the value and moves the key to the front of the queue. -/
theorem get_of_lookup (a : StorageEngine (List (Bytes × Entry))) {k : Bytes} {e : Entry}
    (h : a.store.lookup k = some e) (now checked : Int) :
    a.get listOps k now checked =
      if ({ e with lastAccessed := now } : Entry).expiredAt checked then
        ([], { a with store := a.store.filter fun n => n.1 ≠ k })
      else
        (e.value, { a with store := (k, { e with lastAccessed := now }) :: a.store.filter (fun n => n.1 ≠ k)
                           memManager := a.memManager.updateLru k }) := by
  simp only [StorageEngine.get, listOps_get, h, listOps_insert, listOps_remove]
  split
  · rw [HashTable.filter_key_ne_cons_self (by simp [keys])]
  · rfl

/-- `set("k", "v", 0s)` at time `0`, then `get("k")` reading the clock at `1` ns and `2` ns:
the expiry branch removes the entry and leaves `"k"` in the queue. -/
theorem expired_get_leaves_key_queued (hash : Bytes → Nat) :
    ((init defaultMaxMemory).run (HashTable.ops hash)
        [.set [107] [118] 0 0, .get [107] 1 2]).2.store.entries = [] ∧
      ((init defaultMaxMemory).run (HashTable.ops hash)
        [.set [107] [118] 0 0, .get [107] 1 2]).2.memManager.lruQueue = [[107]] := by
  obtain ⟨-, h⟩ := (refines_init hash defaultMaxMemory).run
    [.set [107] [118] 0 0, .get [107] 1 2]
  exact ⟨List.perm_nil.1 (h.perm.trans (List.Perm.of_eq (by decide))),
    congrArg MemoryManager.lruQueue h.memManager |>.trans (by decide)⟩

/-- `set("k", "v", 1s)` at time `0`, then `get("k")` at `2` s with both clock readings equal:
the entry had expired when `get` started, and `get` answers its value. -/
theorem get_answers_expired_value (hash : Bytes → Nat) :
    (⟨[118], 1, 0⟩ : Entry).expiredAt 2000000000 = true ∧
      ((init defaultMaxMemory).run (HashTable.ops hash)
        [.set [107] [118] 1 0, .get [107] 2000000000 2000000000]).1 = [.done, .value [118]] :=
  ⟨by decide, ((refines_init hash defaultMaxMemory).run _).1.trans (by decide)⟩

/-! ## `evict_expired` on a reachable state -/

/-- INTERNAL: `toInt64` is the identity on the range of `int64`. -/
theorem toInt64_of_lt {x : Int} (h₁ : -9223372036854775808 ≤ x) (h₂ : x < 9223372036854775808) :
    toInt64 x = x := by
  unfold toInt64
  omega

/-- For a ttl within `±9223372036` s and clock readings less than `2^63` ns apart, the expiry
test is the exact comparison `now - last_accessed > ttl · 10^9`. -/
theorem expiredAt_of_bounded (e : Entry) (now : Int) (httl : -9223372036 ≤ e.ttl ∧ e.ttl ≤ 9223372036)
    (hd : -9223372036854775808 ≤ now - e.lastAccessed ∧ now - e.lastAccessed < 9223372036854775808) :
    e.expiredAt now = (e.ttl != secondsMax && decide (e.ttl * nanosPerSecond < now - e.lastAccessed)) := by
  have h₁ : -9223372036854775808 ≤ e.ttl * nanosPerSecond := by unfold nanosPerSecond; omega
  have h₂ : e.ttl * nanosPerSecond < 9223372036854775808 := by unfold nanosPerSecond; omega
  rw [Entry.expiredAt, toInt64_of_lt h₁ h₂, toInt64_of_lt hd.1 hd.2]

/-- `set("k", "v", 0s)` at time `0`, then the reaper's pass at `1` ns: the entry is gone and its
two bytes are still counted. -/
theorem evictExpired_leaves_bytes_counted (hash : Bytes → Nat) :
    ((init defaultMaxMemory).run (HashTable.ops hash)
        [.set [107] [118] 0 0, .evictExpired 1]).2.store.entries = [] ∧
      ((init defaultMaxMemory).run (HashTable.ops hash)
        [.set [107] [118] 0 0, .evictExpired 1]).2.currentMemory = 2 := by
  obtain ⟨-, h⟩ := (refines_init hash defaultMaxMemory).run
    [.set [107] [118] 0 0, .evictExpired 1]
  exact ⟨List.perm_nil.1 (h.perm.trans (List.Perm.of_eq (by decide))),
    h.currentMemory.trans (by decide)⟩

end StorageEngine

end BlinkDb
