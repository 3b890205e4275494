import BlinkDb.Spec.KvMap

/-!
# The store refines the key-value map

While every `set` uses the sentinel ttl `seconds::max()` and the live pairs fit the budget,
`StorageEngine` answers every call as the map of `BlinkDb.Spec.KvMap` does. The relation
`Simulates` ties an engine state to a map: the hash table is well formed
(`HashTable.WellFormed`) and holds the map's pairs, no entry can expire, and
`current_memory` is the map's footprint. Each of `set`, `get`, `del` and `evict_expired`
keeps the relation (a step lemma each), `Simulates.run` carries it along a whole run, and
`run_replies_latest_set` states the result over the history of calls from a freshly
constructed engine.

The budget hypothesis keeps `enforce_memory_limits` from evicting: a `set` that would go over
the budget evicts least recently used keys, and the map has no such step. The hash function
is any function, so keys whose hashes collide are covered.
-/

set_option autoImplicit false

open scoped List

namespace BlinkDb

namespace HashTable
variable {K V : Type} [DecidableEq K]

/-- INTERNAL: with no repeated key, a list is one of its pairs and the pairs of the other
keys. -/
theorem perm_cons_filter_of_mem {l : List (K × V)} (hnd : (keys l).Nodup) {x : K × V}
    (hx : x ∈ l) : l ~ x :: l.filter (fun n => n.1 ≠ x.1) := by
  induction l with
  | nil => simp at hx
  | cons y l ih =>
    simp only [keys, List.map_cons, List.nodup_cons] at hnd
    rcases List.mem_cons.1 hx with rfl | hx
    · rw [List.filter_cons_of_neg (by simp), List.filter_eq_self.2]
      intro n hn; simpa using fun e => hnd.1 (List.mem_map.2 ⟨n, hn, e⟩)
    · have hne : y.1 ≠ x.1 := fun e => hnd.1 (e ▸ List.mem_map.2 ⟨x, hx, rfl⟩)
      rw [List.filter_cons_of_pos (by simpa using hne)]
      exact ((ih hnd.2 hx).cons y).trans (List.Perm.swap _ _ _)

end HashTable

namespace StorageEngine

open HashTable (keys entries)

variable {hash : Bytes → Nat}

/-- The key/value pairs the engine's table holds. -/
def livePairs (s : StorageEngine (HashTable Bytes Entry)) : KvMap := s.store.entries.map fun n => (n.1, n.2.value)

/-- The engine stands for the map `m`: its table is well formed and holds `m`'s pairs, every
entry has the sentinel ttl, and `current_memory` counts `m`. -/
structure Simulates (hash : Bytes → Nat) (s : StorageEngine (HashTable Bytes Entry)) (m : KvMap) : Prop where
  wf : s.store.WellFormed hash
  pairs : s.livePairs ~ m
  sentinel : ∀ n ∈ s.store.entries, n.2.ttl = secondsMax
  counted : s.currentMemory = m.footprint

/-- An entry with the sentinel ttl `seconds::max()` never expires. -/
theorem expiredAt_of_sentinel (e : Entry) (h : e.ttl = secondsMax) (now : Int) :
    e.expiredAt now = false := by
  simp [Entry.expiredAt, h]

/-- INTERNAL: the map an engine stands for has one pair per key. -/
theorem Simulates.nodup_keys {s : StorageEngine (HashTable Bytes Entry)} {m : KvMap} (h : Simulates hash s m) :
    (keys m).Nodup :=
  (h.pairs.map Prod.fst).nodup_iff.1 (by simpa [livePairs, keys, Function.comp_def] using h.wf.nodup_keys)

/-- INTERNAL: the table's value for a key is the map's. -/
theorem Simulates.get_store {s : StorageEngine (HashTable Bytes Entry)} {m : KvMap} (h : Simulates hash s m) (k : Bytes) :
    (s.store.get hash k).map Entry.value = m.lookup k := by
  cases hg : s.store.get hash k with
  | none =>
    have hk := h.wf.get_eq_none_iff.1 hg
    have hk' : k ∉ keys m := fun hm => hk (by
      have := (h.pairs.map Prod.fst).mem_iff.2 hm
      simpa [livePairs, keys, Function.comp_def] using this)
    exact ((HashTable.lookup_eq_none_iff m k).2 hk').symm
  | some e =>
    have hmem := h.wf.get_eq_some_iff.1 hg
    have hm : (k, e.value) ∈ m := h.pairs.subset (List.mem_map.2 ⟨(k, e), hmem, rfl⟩)
    exact ((HashTable.lookup_eq_some_iff h.nodup_keys).2 hm).symm

/-- INTERNAL: the pairs of a table after writing `(k, e)`. -/
theorem livePairs_insert_perm {t : HashTable Bytes Entry} (hw : t.WellFormed hash) (k : Bytes)
    (e : Entry) :
    ((t.insert hash k e).entries.map fun n => (n.1, n.2.value)) ~
      (k, e.value) :: (t.entries.map fun n => (n.1, n.2.value)).filter (fun n => n.1 ≠ k) := by
  refine ((hw.insert k e).2.map _).trans ?_
  simp [List.filter_map, Function.comp_def]

/-- INTERNAL: the pairs of a table after removing `k`. -/
theorem livePairs_remove_perm {t : HashTable Bytes Entry} (hw : t.WellFormed hash) (k : Bytes) :
    ((t.remove hash k).2.entries.map fun n => (n.1, n.2.value)) ~
      (t.entries.map fun n => (n.1, n.2.value)).filter (fun n => n.1 ≠ k) := by
  refine ((hw.remove k).2.1.map _).trans ?_
  simp [List.filter_map, Function.comp_def]

/-- INTERNAL: the budget loop does nothing when the count is within the budget. -/
theorem enforceMemoryLimits_of_le {s : StorageEngine (HashTable Bytes Entry)} (h : s.currentMemory ≤ s.maxMemory) :
    enforceMemoryLimits (HashTable.ops hash) s = s := by
  simp [enforceMemoryLimits, enforceLoop, Nat.not_lt.2 h]

/-- INTERNAL: the footprint of a map is a key's pair plus the rest. -/
theorem footprint_of_mem {m : KvMap} (hnd : (keys m).Nodup) {k v : Bytes} (hm : (k, v) ∈ m) :
    m.footprint = k.length + v.length + (m.erase k).footprint := by
  rw [KvMap.footprint_perm (HashTable.perm_cons_filter_of_mem hnd hm)]
  rfl

/-- INTERNAL: erasing an absent key changes nothing. -/
theorem erase_of_not_mem {m : KvMap} {k : Bytes} (hk : k ∉ keys m) : m.erase k = m :=
  HashTable.filter_key_ne_of_not_mem hk

/-- `set` with the sentinel ttl, when the new map fits the budget, is the map's `set`. -/
theorem Simulates.set {s : StorageEngine (HashTable Bytes Entry)} {m : KvMap} (h : Simulates hash s m) (k v : Bytes)
    (now : Int) (hfit : (m.set k v).footprint ≤ s.maxMemory) :
    Simulates hash (s.set (HashTable.ops hash) k v secondsMax now) (m.set k v) ∧
      (s.set (HashTable.ops hash) k v secondsMax now).maxMemory = s.maxMemory := by
  have hcount : s.currentMemory - ((s.store.get hash k).map fun old => k.length + old.value.length).getD 0
      + (k.length + v.length) = (m.set k v).footprint := by
    have hl := h.get_store k
    have hset : (m.set k v).footprint = k.length + v.length + (m.erase k).footprint := rfl
    cases hg : s.store.get hash k with
    | none =>
      rw [hg, Option.map_none', eq_comm, HashTable.lookup_eq_none_iff] at hl
      rw [hset, erase_of_not_mem hl, h.counted]; simp; omega
    | some old =>
      rw [hg, Option.map_some', eq_comm, HashTable.lookup_eq_some_iff h.nodup_keys] at hl
      have := footprint_of_mem h.nodup_keys hl
      rw [hset, h.counted]; simp only [Option.map_some', Option.getD_some]; omega
  simp only [StorageEngine.set, HashTable.ops_get, HashTable.ops_insert]
  rw [enforceMemoryLimits_of_le (by exact hcount ▸ hfit)]
  refine ⟨⟨(h.wf.insert k _).1, ?_, ?_, hcount⟩, rfl⟩
  · exact (livePairs_insert_perm h.wf k _).trans ((h.pairs.filter _).cons _)
  · intro n hn
    rcases List.mem_cons.1 ((h.wf.insert k _).2.subset hn) with rfl | hn
    · rfl
    · exact h.sentinel n (List.mem_of_mem_filter hn)

/-- With every ttl the sentinel, `get` answers the map's value and leaves the map as it was. -/
theorem Simulates.get {s : StorageEngine (HashTable Bytes Entry)} {m : KvMap} (h : Simulates hash s m) (k : Bytes)
    (now checked : Int) :
    (s.get (HashTable.ops hash) k now checked).1 = (m.lookup k).getD [] ∧
      Simulates hash (s.get (HashTable.ops hash) k now checked).2 m ∧
      (s.get (HashTable.ops hash) k now checked).2.maxMemory = s.maxMemory := by
  have hl := h.get_store k
  cases hg : s.store.get hash k with
  | none =>
    rw [hg, Option.map_none'] at hl
    simp [StorageEngine.get, hg, ← hl, h]
  | some e =>
    rw [hg, Option.map_some'] at hl
    have hmem : (k, e.value) ∈ m := (HashTable.lookup_eq_some_iff h.nodup_keys).1 hl.symm
    have hsent : e.ttl = secondsMax := h.sentinel _ (h.wf.get_eq_some_iff.1 hg)
    have hexp : ({ e with lastAccessed := now } : Entry).expiredAt checked = false :=
      expiredAt_of_sentinel { e with lastAccessed := now } hsent checked
    simp only [StorageEngine.get, HashTable.ops_get, HashTable.ops_insert, hg, hexp, ← hl,
      Option.getD_some]
    refine ⟨rfl, ⟨(h.wf.insert k _).1, ?_, ?_, h.counted⟩, rfl⟩
    · exact (livePairs_insert_perm h.wf k _).trans
        (((h.pairs.filter _).cons _).trans (HashTable.perm_cons_filter_of_mem h.nodup_keys hmem).symm)
    · intro n hn
      rcases List.mem_cons.1 ((h.wf.insert k _).2.subset hn) with rfl | hn
      · exact hsent
      · exact h.sentinel n (List.mem_of_mem_filter hn)

/-- `del` answers whether the map holds the key and erases it. -/
theorem Simulates.del {s : StorageEngine (HashTable Bytes Entry)} {m : KvMap} (h : Simulates hash s m) (k : Bytes) :
    (s.del (HashTable.ops hash) k).1 = (m.lookup k).isSome ∧ Simulates hash (s.del (HashTable.ops hash) k).2 (m.erase k) ∧
      (s.del (HashTable.ops hash) k).2.maxMemory = s.maxMemory := by
  have hl := h.get_store k
  cases hg : s.store.get hash k with
  | none =>
    rw [hg, Option.map_none', eq_comm, HashTable.lookup_eq_none_iff] at hl
    simp [StorageEngine.del, hg, erase_of_not_mem hl, h, (HashTable.lookup_eq_none_iff m k).2 hl]
  | some e =>
    rw [hg, Option.map_some'] at hl
    have hmem : (k, e.value) ∈ m := (HashTable.lookup_eq_some_iff h.nodup_keys).1 hl.symm
    have hfoot := footprint_of_mem h.nodup_keys hmem
    simp only [StorageEngine.del, HashTable.ops_get, HashTable.ops_remove, hg]
    refine ⟨by simp [← hl], ⟨(h.wf.remove k).1, (livePairs_remove_perm h.wf k).trans (h.pairs.filter _), ?_, ?_⟩, trivial⟩
    · intro n hn
      exact h.sentinel n (List.mem_of_mem_filter ((h.wf.remove k).2.1.subset hn))
    · show s.currentMemory - (k.length + e.value.length) = _
      rw [h.counted]; omega

/-- With every ttl the sentinel, nothing has expired, and the reaper's pass changes nothing. -/
theorem Simulates.evictExpired {s : StorageEngine (HashTable Bytes Entry)} {m : KvMap} (h : Simulates hash s m) (now : Int) :
    s.evictExpired (HashTable.ops hash) now = s := by
  have : expiredKeys (HashTable.ops hash) s.store now = [] := by
    simp only [expiredKeys, List.map_eq_nil_iff, List.filter_eq_nil_iff]
    intro n hn
    obtain ⟨i, -, hi⟩ := List.mem_flatMap.1 hn
    simp [expiredAt_of_sentinel _ (h.sentinel n (HashTable.mem_entries_iff.2 ⟨i, hi⟩))]
  simp [StorageEngine.evictExpired, this]

/-- The engine runs like the map on every run that uses only the sentinel ttl and keeps the
map within the budget. -/
theorem Simulates.run {s : StorageEngine (HashTable Bytes Entry)} {m : KvMap} (h : Simulates hash s m) (ops : List Op)
    (hsent : ∀ k v ttl now, Op.set k v ttl now ∈ ops → ttl = secondsMax)
    (hfit : ∀ n ≤ ops.length, (KvMap.run m (ops.take n)).2.footprint ≤ s.maxMemory) :
    (s.run (HashTable.ops hash) ops).1 = (KvMap.run m ops).1 := by
  induction ops generalizing s m with
  | nil => rfl
  | cons op ops ih =>
    have hfit' : ∀ n ≤ ops.length,
        (KvMap.run (KvMap.step m op).2 (ops.take n)).2.footprint ≤ s.maxMemory :=
      fun n hn => hfit (n + 1) (Nat.succ_le_succ hn)
    have hsent' : ∀ k v ttl now, Op.set k v ttl now ∈ ops → ttl = secondsMax :=
      fun k v ttl now hm => hsent k v ttl now (List.mem_cons_of_mem _ hm)
    cases op with
    | set k v ttl now =>
      obtain rfl := hsent k v ttl now (List.mem_cons_self _ _)
      obtain ⟨h', hmax⟩ := h.set k v now (hfit 1 (Nat.succ_le_succ (Nat.zero_le _)))
      simp only [StorageEngine.run, KvMap.run, step, KvMap.step]
      rw [ih h' hsent' (hmax ▸ hfit')]
    | get k now checked =>
      obtain ⟨hr, h', hmax⟩ := h.get k now checked
      simp only [StorageEngine.run, KvMap.run, step, KvMap.step, hr]
      rw [ih h' hsent' (hmax ▸ hfit')]
    | del k =>
      obtain ⟨hr, h', hmax⟩ := h.del k
      simp only [StorageEngine.run, KvMap.run, step, KvMap.step, hr]
      rw [ih h' hsent' (hmax ▸ hfit')]
    | evictExpired now =>
      simp only [StorageEngine.run, KvMap.run, step, KvMap.step, h.evictExpired now]
      rw [ih h hsent' hfit']

/-- A fresh engine stands for the empty map. -/
theorem simulates_init (maxMemory : Nat) : Simulates hash (init maxMemory) [] :=
  ⟨HashTable.wellFormed_empty (by decide), by simp [livePairs, HashTable.entries, init, HashTable.empty],
    by simp [HashTable.entries, init, HashTable.empty], rfl⟩

/-- From a freshly constructed engine, on every run whose sets use the sentinel ttl and whose
live pairs fit the budget after every call, `get(k)` answers the value of the most recent
`set(k, ·)` that no `del(k)` followed (`""` when there is none) and `del(k)` whether there is
one, whatever the hash function, the keys and the values. -/
theorem run_replies_latest_set (hash : Bytes → Nat) (maxMemory : Nat) (ops : List Op)
    (hsent : ∀ k v ttl now, Op.set k v ttl now ∈ ops → ttl = secondsMax)
    (hfit : ∀ n ≤ ops.length, (KvMap.run [] (ops.take n)).2.footprint ≤ maxMemory) :
    ((init maxMemory).run (HashTable.ops hash) ops).1 = expectedReplies [] ops :=
  ((simulates_init maxMemory).run ops hsent hfit).trans
    (KvMap.run_eq_expectedReplies [] [] ops fun _ => rfl)

/-- A run with an overwrite, a `del` and a second `del`, within a budget of 8 bytes, hashing by
length. -/
theorem run_replies_overwrite_delete :
    ((init 8).run (HashTable.ops List.length)
      [.set [97] [120, 121] secondsMax 0, .get [97] 1 1, .set [97] [122] secondsMax 2,
        .get [97] 3 3, .del [97], .del [97], .get [97] 4 4]).1 =
      [.done, .value [120, 121], .done, .value [122], .deleted true, .deleted false, .value []] := by
  rw [run_replies_latest_set List.length 8 _
    (fun k v ttl now h => by simp at h; obtain ⟨-, -, rfl, -⟩ | ⟨-, -, rfl, -⟩ := h <;> rfl)
    (by decide)]
  rfl

end StorageEngine

end BlinkDb
