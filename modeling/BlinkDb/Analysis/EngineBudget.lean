import BlinkDb.Analysis.EngineRefinement
import BlinkDb.Analysis.StoreRefinement
import BlinkDb.Model.Reaper

/-!
# The engine keeps its budget, among the reaper's steps

`current_memory` is the engine's count of the bytes its entries hold, `Σ key.size() +
value.size()`, and `enforce_memory_limits` pops keys from the back of the LRU queue until the
count is within `max_memory`. On every state a run of the system of `BlinkDb.Model.Reaper`
reaches (client calls under `mtx`, and the reaper's scans and the two halves of each round of
its batch loop, in any interleaving), for every hash function and budget, as long as no `SET`
writes the empty key (`run_keeps_budget`):

* the table's entries hold at most `max_memory` bytes;
* `current_memory` counts at least the bytes the entries hold (more once the reaper has
  removed entries, which it does without uncounting them);
* the LRU queue holds each key once.

An empty key stops the eviction loop at the key's place in the queue, over budget
(`set_stops_at_empty_key`); it is the one input the result excludes.

The queue need not hold every key of the table. A `set` of a key that lands between the
reaper's `store.remove(key)` and `mem_manager.evict_lru(key)` writes the entry back, and the
second half then takes the key out of the queue under it: the entry is stranded, and no later
`enforce_memory_limits` evicts it (`set_mid_round_strands_key`). The budget still holds:
stranded nodes (`strays`) only arise from nodes that fit, and the loop that empties the queue
leaves exactly them.

The proof runs over the engine of `BlinkDb.Spec.ListStore`. `Accounted` collects the
accounting facts, which every call and every round of the eviction loop keeps; with one round
for each queued key the loop ends within the budget or with only strays left
(`Accounted.enforceLoop`), and either way the entries fit (`Accounted.heldBytes_le_of_exit`).
`Refines` carries the result to the hash table, step by step of the system. Where the count
covers the entries, as `Accounted` says, the loop evicts exactly a suffix of the queue and its
subtractions never wrap (`enforceMemoryLimits_evicts_lru`).
-/

set_option autoImplicit false

open scoped List

namespace BlinkDb

open HashTable (keys)

namespace MemoryManager

variable {m : MemoryManager} {k j : Bytes}

/-- INTERNAL: after `update_lru(k)` the queue holds `k` and what it held. -/
theorem mem_updateLru : j ∈ (m.updateLru k).lruQueue ↔ j = k ∨ j ∈ m.lruQueue := by
  by_cases h : j = k <;> simp [updateLru, h]

/-- INTERNAL: `update_lru` keeps the queue free of repeats. -/
theorem nodup_updateLru (h : m.lruQueue.Nodup) (k : Bytes) : (m.updateLru k).lruQueue.Nodup :=
  List.nodup_cons.2 ⟨by simp, h.filter _⟩

/-- INTERNAL: `evict_lru(k)` drops exactly `k` from the queue. -/
theorem mem_evictLruKey : j ∈ (m.evictLruKey k).lruQueue ↔ j ∈ m.lruQueue ∧ j ≠ k := by
  simp [evictLruKey]

/-- Popping the back key of the queue. -/
theorem evictLru_of_concat {q : List Bytes} (hq : m.lruQueue = q ++ [k]) : m.evictLru = (k, ⟨q⟩) := by
  simp only [evictLru, hq, List.getLast?_concat, List.dropLast_concat]

/-- Popping from an empty queue returns the empty key and changes nothing. -/
theorem evictLru_of_nil (hq : m.lruQueue = []) : m.evictLru = ([], m) := by
  simp [evictLru, hq]

end MemoryManager

namespace StorageEngine

/-! ## Frame: no call changes the budget -/

section Frame

variable {T : Type} (ops : TableOps T) (s : StorageEngine T)

/-- The eviction loop leaves the budget. -/
@[simp] theorem maxMemory_enforceLoop (fuel : Nat) : (enforceLoop ops fuel s).maxMemory = s.maxMemory := by
  induction fuel generalizing s with
  | zero => rfl
  | succ fuel ih =>
    simp only [StorageEngine.enforceLoop]
    split_ifs
    · rfl
    · split <;> simp [ih]
    · rfl

/-- `set` leaves the budget. -/
@[simp] theorem maxMemory_set (k v : Bytes) (ttl now : Int) :
    (s.set ops k v ttl now).maxMemory = s.maxMemory := by
  simp [StorageEngine.set, enforceMemoryLimits]

end Frame

/-! ## The bytes the entries hold -/

/-- The bytes a list of nodes holds, `Σ key.size() + value.size()`: what `current_memory` is
meant to count. -/
def heldBytes (l : List (Bytes × Entry)) : Nat := KvMap.footprint (l.map fun n => (n.1, n.2.value))

/-- An empty table holds no bytes. -/
@[simp] theorem heldBytes_nil : heldBytes [] = 0 := rfl

/-- The bytes of one more node. -/
@[simp] theorem heldBytes_cons (n : Bytes × Entry) (l : List (Bytes × Entry)) :
    heldBytes (n :: l) = n.1.length + n.2.value.length + heldBytes l := rfl

/-- The bytes held do not depend on the order of the nodes. -/
theorem heldBytes_perm {l l' : List (Bytes × Entry)} (h : l ~ l') : heldBytes l = heldBytes l' :=
  KvMap.footprint_perm (h.map _)

/-- INTERNAL: fewer nodes hold fewer bytes. -/
theorem heldBytes_le_of_sublist {l l' : List (Bytes × Entry)} (h : l <+ l') : heldBytes l ≤ heldBytes l' := by
  induction h with
  | slnil => exact le_rfl
  | cons n _ ih => simp only [heldBytes_cons]; omega
  | cons₂ n _ ih => simp only [heldBytes_cons]; omega

/-- INTERNAL: dropping nodes does not add bytes. -/
theorem heldBytes_filter_le (p : Bytes × Entry → Bool) (l : List (Bytes × Entry)) :
    heldBytes (l.filter p) ≤ heldBytes l :=
  heldBytes_le_of_sublist (List.filter_sublist _)

/-- With one node per key, the bytes of a key's node and of the others. -/
theorem heldBytes_of_lookup {l : List (Bytes × Entry)} (hnd : (keys l).Nodup) {k : Bytes} {e : Entry}
    (h : l.lookup k = some e) :
    heldBytes l = k.length + e.value.length + heldBytes (l.filter fun n => n.1 ≠ k) := by
  rw [heldBytes_perm (HashTable.perm_cons_filter_of_mem hnd ((HashTable.lookup_eq_some_iff hnd).1 h))]
  rfl

/-! ## The accounting facts over the list engine -/

/-- The accounting facts of the engine over a list: one node per key and none for the empty
key, the queue without repeats and without the empty key, and the table's bytes counted. -/
structure Accounted (a : StorageEngine (List (Bytes × Entry))) : Prop where
  nodup : (keys a.store).Nodup
  keyed : [] ∉ keys a.store
  queueNodup : a.memManager.lruQueue.Nodup
  named : [] ∉ a.memManager.lruQueue
  counted : heldBytes a.store ≤ a.currentMemory

/-- The accounting facts, and the entries within the budget. -/
structure Budgeted (a : StorageEngine (List (Bytes × Entry))) extends Accounted a : Prop where
  fits : heldBytes a.store ≤ a.maxMemory

/-- The nodes of the table whose keys are not in the queue: the eviction loop never reaches
them. -/
def strays (a : StorageEngine (List (Bytes × Entry))) : List (Bytes × Entry) :=
  a.store.filter fun n => n.1 ∉ a.memManager.lruQueue

variable {a : StorageEngine (List (Bytes × Entry))}

/-- INTERNAL: writing `k`'s node and touching `k`, with a count that covers the new table. -/
theorem Accounted.touch (h : Accounted a) {k : Bytes} (hk : k ≠ []) (e : Entry) {c : Nat}
    (hc : k.length + e.value.length + heldBytes (a.store.filter fun n => n.1 ≠ k) ≤ c) :
    Accounted { a with store := listOps.insert a.store k e, memManager := a.memManager.updateLru k,
                       currentMemory := c } where
  nodup := by
    simp only [listOps_insert, keys, List.map_cons, List.nodup_cons]
    exact ⟨by simp, (List.filter_sublist _).map _ |>.nodup h.nodup⟩
  keyed hn := by
    simp only [listOps_insert, keys, List.map_cons, List.mem_cons] at hn
    exact hn.elim (fun e => hk e.symm) fun hn => h.keyed (((List.filter_sublist _).map _).subset hn)
  queueNodup := MemoryManager.nodup_updateLru h.queueNodup k
  named hn := (MemoryManager.mem_updateLru.1 hn).elim (fun e => hk e.symm) h.named
  counted := by simpa using hc

/-- INTERNAL: the touched key is queued, so the strays after a touch are among the table's
other nodes before it. -/
theorem strays_touch_sublist (k : Bytes) (e : Entry) {c : Nat} :
    strays { a with store := listOps.insert a.store k e, memManager := a.memManager.updateLru k,
                    currentMemory := c } <+ a.store := by
  simp only [strays, listOps_insert]
  rw [List.filter_cons_of_neg (by simp [MemoryManager.mem_updateLru])]
  exact (List.filter_sublist _).trans (List.filter_sublist _)

/-- INTERNAL: dropping `k`'s node, and at most `k` from the queue, with a count that covers the
rest. -/
theorem Accounted.drop (h : Accounted a) (k : Bytes) {m : MemoryManager}
    (hsub : m.lruQueue <+ a.memManager.lruQueue) {c : Nat}
    (hc : heldBytes (a.store.filter fun n => n.1 ≠ k) ≤ c) :
    Accounted { a with store := a.store.filter (fun n => n.1 ≠ k), memManager := m,
                       currentMemory := c } where
  nodup := ((List.filter_sublist _).map _).nodup h.nodup
  keyed hn := h.keyed (((List.filter_sublist _).map _).subset hn)
  queueNodup := hsub.nodup h.queueNodup
  named hn := h.named (hsub.subset hn)
  counted := hc

/-- Where the eviction loop may stop, within the budget or with the queue empty, the entries
fit a budget that the strays fit: an empty queue leaves only strays. -/
theorem Accounted.heldBytes_le_of_exit (h : Accounted a) {M : Nat} (hs : heldBytes (strays a) ≤ M)
    (hx : a.currentMemory ≤ M ∨ a.memManager.lruQueue = []) : heldBytes a.store ≤ M := by
  rcases hx with hx | hq
  · exact h.counted.trans hx
  · simpa [strays, hq] using hs

/-- The eviction loop keeps the accounting facts, and given a round for every queued key and
strays within the budget it ends with the entries within the budget. -/
theorem Accounted.enforceLoop (fuel : Nat) :
    ∀ {a : StorageEngine (List (Bytes × Entry))}, Accounted a → heldBytes (strays a) ≤ a.maxMemory →
      Accounted (enforceLoop listOps fuel a) ∧
        (a.memManager.lruQueue.length < fuel → heldBytes (enforceLoop listOps fuel a).store ≤ a.maxMemory) := by
  induction fuel with
  | zero => exact fun h _ => ⟨h, fun hlt => absurd hlt (Nat.not_lt_zero _)⟩
  | succ fuel ih =>
    intro a h hs
    by_cases hlt : a.maxMemory < a.currentMemory
    swap
    · simp only [StorageEngine.enforceLoop, if_neg hlt]
      exact ⟨h, fun _ => h.heldBytes_le_of_exit hs (.inl (Nat.not_lt.1 hlt))⟩
    rcases List.eq_nil_or_concat a.memManager.lruQueue with hq | ⟨q, k, hq⟩
    · simp only [StorageEngine.enforceLoop, if_pos hlt, MemoryManager.evictLru_of_nil hq,
        List.isEmpty_nil, if_true]
      exact ⟨h, fun _ => h.heldBytes_le_of_exit hs (.inr hq)⟩
    rw [List.concat_eq_append] at hq
    have hk : k ≠ [] := fun e => h.named (hq ▸ e ▸ List.mem_append_right _ (List.mem_singleton_self k))
    obtain ⟨b, bs, rfl⟩ := List.exists_cons_of_ne_nil hk
    have hsub : q <+ a.memManager.lruQueue := hq ▸ List.sublist_append_left _ _
    have hfuel : a.memManager.lruQueue.length < fuel + 1 → q.length < fuel := fun hlen => by
      simpa [hq] using hlen
    -- a round drops a queued key's node, so it leaves no new strays
    have hs' : ∀ c, heldBytes (strays ⟨a.store.filter (fun n => n.1 ≠ b :: bs), ⟨q⟩, c, a.maxMemory⟩) ≤
        a.maxMemory := fun c => by
      refine (heldBytes_le_of_sublist ?_).trans hs
      simp only [strays, List.filter_filter, hq]
      exact List.monotone_filter_right _ fun n => by simp_all
    simp only [StorageEngine.enforceLoop, if_pos hlt, MemoryManager.evictLru_of_concat hq,
      List.isEmpty_cons, Bool.false_eq_true, if_false, listOps_get, listOps_remove]
    cases he : a.store.lookup (b :: bs) with
    | some e =>
      have hheld := heldBytes_of_lookup h.nodup he
      obtain ⟨h', hx⟩ := ih (h.drop _ hsub (c := a.currentMemory - ((b :: bs).length +
        e.value.length)) (by have := h.counted; omega)) (hs' _)
      exact ⟨h', fun hlen => hx (hfuel hlen)⟩
    | none =>
      have hnot := HashTable.filter_key_ne_of_not_mem ((HashTable.lookup_eq_none_iff _ _).1 he)
      have hs₁ := hs' a.currentMemory
      have hd := h.drop _ hsub (c := a.currentMemory) (by rw [hnot]; exact h.counted)
      rw [hnot] at hs₁ hd
      obtain ⟨h', hx⟩ := ih hd hs₁
      exact ⟨h', fun hlen => hx (hfuel hlen)⟩

/-! ## Which keys the loop evicts -/

/-- INTERNAL: the bytes of the nodes whose keys are among `D ++ [k]`: `k`'s, and the others'. -/
theorem heldBytes_filter_mem_concat (l : List (Bytes × Entry)) (D : List Bytes) (k : Bytes) :
    heldBytes (l.filter fun n => n.1 ∈ D ++ [k]) = heldBytes (l.filter fun n => n.1 = k) +
      heldBytes ((l.filter fun n => n.1 ≠ k).filter fun n => n.1 ∈ D) := by
  induction l with
  | nil => rfl
  | cons x l ih =>
    simp only [List.filter_cons]
    split_ifs <;> simp_all <;> omega

/-- INTERNAL: the bytes of a key's node, nothing when there is none. -/
theorem heldBytes_filter_eq {l : List (Bytes × Entry)} (hnd : (keys l).Nodup) (k : Bytes) :
    heldBytes (l.filter fun n => n.1 = k) =
      ((l.lookup k).map fun e => k.length + e.value.length).getD 0 := by
  cases hl : l.lookup k with
  | none =>
    rw [List.filter_eq_nil_iff.2 fun n hn hk => (HashTable.lookup_eq_none_iff l k).1 hl
      (by rw [← of_decide_eq_true hk]; exact List.mem_map_of_mem Prod.fst hn)]
    rfl
  | some e =>
    have hp := HashTable.perm_cons_filter_of_mem hnd ((HashTable.lookup_eq_some_iff hnd).1 hl)
    rw [heldBytes_perm (hp.filter _), List.filter_cons_of_pos (by simp),
      List.filter_eq_nil_iff.2 fun n hn => by simpa using (List.mem_filter.1 hn).2]
    simp

/-- INTERNAL: a round of the loop over the list that pops a key other than the empty one drops
the key's node and its bytes. -/
theorem enforceLoop_concat {a : StorageEngine (List (Bytes × Entry))} (hnd : (keys a.store).Nodup)
    {q : List Bytes} {k : Bytes} (hk : k ≠ []) (hq : a.memManager.lruQueue = q ++ [k])
    (hlt : a.maxMemory < a.currentMemory) (fuel : Nat) :
    enforceLoop listOps (fuel + 1) a = enforceLoop listOps fuel
      { a with store := a.store.filter (fun n => n.1 ≠ k), memManager := ⟨q⟩,
               currentMemory := a.currentMemory - heldBytes (a.store.filter fun n => n.1 = k) } := by
  obtain ⟨b, bs, rfl⟩ := List.exists_cons_of_ne_nil hk
  rw [heldBytes_filter_eq hnd]
  simp only [StorageEngine.enforceLoop, if_pos hlt, MemoryManager.evictLru_of_concat hq,
    List.isEmpty_cons, Bool.false_eq_true, if_false, listOps_get, listOps_remove]
  cases he : a.store.lookup (b :: bs) with
  | some e => rfl
  | none =>
    rw [HashTable.filter_key_ne_of_not_mem ((HashTable.lookup_eq_none_iff _ _).1 he)]
    rfl

/-- `r` is what the loop leaves after evicting the keys of `a`'s queue from the `n`-th on, least
recently used first: the first `n` keys of the queue, the table without the other keys' nodes,
and the count without their bytes. It stopped within the budget or with the queue empty, and
before each key it evicted the count was over the budget. -/
structure LruEviction (a r : StorageEngine (List (Bytes × Entry))) (n : Nat) : Prop where
  queue : r.memManager.lruQueue = a.memManager.lruQueue.take n
  store : r.store = a.store.filter fun x => x.1 ∉ a.memManager.lruQueue.drop n
  count : r.currentMemory =
    a.currentMemory - heldBytes (a.store.filter fun x => x.1 ∈ a.memManager.lruQueue.drop n)
  stop : r.currentMemory ≤ a.maxMemory ∨ n = 0
  over : ∀ j, n < j → j ≤ a.memManager.lruQueue.length → a.maxMemory <
    a.currentMemory - heldBytes (a.store.filter fun x => x.1 ∈ a.memManager.lruQueue.drop j)

/-- INTERNAL: a loop that evicts nothing. -/
theorem lruEviction_self {a : StorageEngine (List (Bytes × Entry))}
    (h : a.currentMemory ≤ a.maxMemory ∨ a.memManager.lruQueue = []) :
    LruEviction a a a.memManager.lruQueue.length where
  queue := (List.take_length _).symm
  store := by simp
  count := by simp
  stop := h.imp_right fun hq => by simp [hq]
  over _ hn hj := absurd (lt_of_lt_of_le hn hj) (lt_irrefl _)

/-- The loop over the list, given a round for every queued key, evicts a suffix of the queue
as `LruEviction` says, when the table has one node per key and the queue no empty key. -/
theorem enforceLoop_lruEviction (fuel : Nat) :
    ∀ {a : StorageEngine (List (Bytes × Entry))}, (keys a.store).Nodup → [] ∉ a.memManager.lruQueue →
      a.memManager.lruQueue.length < fuel →
      ∃ n ≤ a.memManager.lruQueue.length, LruEviction a (enforceLoop listOps fuel a) n := by
  induction fuel with
  | zero => exact fun _ _ hlt => absurd hlt (Nat.not_lt_zero _)
  | succ fuel ih =>
    intro a hnd hnamed hfuel
    by_cases hlt : a.maxMemory < a.currentMemory
    swap
    · simp only [StorageEngine.enforceLoop, if_neg hlt]
      exact ⟨_, le_rfl, lruEviction_self (.inl (Nat.not_lt.1 hlt))⟩
    rcases List.eq_nil_or_concat a.memManager.lruQueue with hq | ⟨q, k, hq⟩
    · simp only [StorageEngine.enforceLoop, if_pos hlt, MemoryManager.evictLru_of_nil hq,
        List.isEmpty_nil, if_true]
      exact ⟨_, le_rfl, lruEviction_self (.inr hq)⟩
    rw [List.concat_eq_append] at hq
    have hk : k ≠ [] := fun e => hnamed (hq ▸ e ▸ List.mem_append_right _ (List.mem_singleton_self k))
    rw [enforceLoop_concat hnd hk hq hlt]
    obtain ⟨n, hn : n ≤ q.length, hr⟩ := ih
      (a := { a with store := a.store.filter (fun n => n.1 ≠ k), memManager := ⟨q⟩,
                     currentMemory := a.currentMemory - heldBytes (a.store.filter fun n => n.1 = k) })
      (((List.filter_sublist _).map _).nodup hnd)
      (fun h => hnamed (hq ▸ List.mem_append_left _ h)) (by simpa [hq] using hfuel)
    have hdrop : ∀ j ≤ q.length, (q ++ [k]).drop j = q.drop j ++ [k] := fun j hj =>
      List.drop_append_of_le_length hj
    have hsplit : ∀ D, a.currentMemory - heldBytes (a.store.filter fun x => x.1 ∈ D ++ [k]) =
        a.currentMemory - heldBytes (a.store.filter fun x => x.1 = k) -
          heldBytes ((a.store.filter fun x => x.1 ≠ k).filter fun x => x.1 ∈ D) := fun D => by
      rw [heldBytes_filter_mem_concat, Nat.sub_sub]
    refine ⟨n, by simp [hq]; omega, ⟨?_, ?_, ?_, hr.stop, fun j hj hjl => ?_⟩⟩
    · rw [hr.queue, hq, List.take_append_of_le_length hn]
    · rw [hr.store, hq, hdrop n hn, List.filter_filter]
      exact List.filter_congr fun x _ => by by_cases h : x.1 = k <;> simp [h]
    · rw [hr.count, hq, hdrop n hn, hsplit]
    · rw [hq] at hjl ⊢
      simp only [List.length_append, List.length_singleton] at hjl
      rcases Nat.lt_or_ge q.length j with hj' | hj'
      · rw [List.drop_eq_nil_of_le (by simp; omega)]
        simpa using hlt
      · rw [hdrop j hj', hsplit]
        exact hr.over j hj hj'

/-- For every hash function, on every engine whose table is well formed, whose queue does not
hold the empty key, and whose count covers the bytes its entries hold (as on every state a run
reaches, `Accounted`), `enforce_memory_limits` evicts the least recently used keys, and only
while the count is over the budget: for some `n`, it leaves the first `n` keys of the queue, the
table without the nodes of the keys after them, and the count without those nodes' bytes, which
the count covers, so that no subtraction wraps; it stops within the budget or with the queue
empty; and at every larger `j` the count without the bytes of the keys from the `j`-th on was
still over the budget. -/
theorem enforceMemoryLimits_evicts_lru (hash : Bytes → Nat) (s : StorageEngine (HashTable Bytes Entry))
    (hw : s.store.WellFormed hash) (hq : [] ∉ s.memManager.lruQueue)
    (hc : heldBytes s.store.entries ≤ s.currentMemory) :
    ∃ n ≤ s.memManager.lruQueue.length,
      (enforceMemoryLimits (HashTable.ops hash) s).memManager.lruQueue = s.memManager.lruQueue.take n ∧
      (enforceMemoryLimits (HashTable.ops hash) s).store.entries ~
        s.store.entries.filter (fun x => x.1 ∉ s.memManager.lruQueue.drop n) ∧
      (enforceMemoryLimits (HashTable.ops hash) s).currentMemory = s.currentMemory -
        heldBytes (s.store.entries.filter fun x => x.1 ∈ s.memManager.lruQueue.drop n) ∧
      heldBytes (s.store.entries.filter fun x => x.1 ∈ s.memManager.lruQueue.drop n) ≤ s.currentMemory ∧
      ((enforceMemoryLimits (HashTable.ops hash) s).currentMemory ≤ s.maxMemory ∨ n = 0) ∧
      ∀ j, n < j → j ≤ s.memManager.lruQueue.length → s.maxMemory < s.currentMemory -
        heldBytes (s.store.entries.filter fun x => x.1 ∈ s.memManager.lruQueue.drop j) := by
  have h : Refines hash s ⟨s.store.entries, s.memManager, s.currentMemory, s.maxMemory⟩ :=
    ⟨hw, List.Perm.refl _, rfl, rfl, rfl⟩
  have h' := h.enforceMemoryLimits
  obtain ⟨n, hn, hr⟩ := enforceLoop_lruEviction (s.memManager.lruQueue.length + 1)
    (a := ⟨s.store.entries, s.memManager, s.currentMemory, s.maxMemory⟩) hw.nodup_keys hq
    (Nat.lt_succ_self _)
  refine ⟨n, hn, ?_, h'.perm.trans (List.Perm.of_eq hr.store), ?_,
    (heldBytes_filter_le _ _).trans hc, ?_, hr.over⟩
  · rw [h'.memManager]; exact hr.queue
  · rw [h'.currentMemory]; exact hr.count
  · rw [h'.currentMemory]; exact hr.stop

/-- Two keys over a six-byte budget: the loop evicts the older one, `"a"`, and stops. -/
theorem lru_evicts_older_of_two :
    let s := { ((init 100).run (HashTable.ops List.length)
      [.set (ascii "a") (ascii "xyz") secondsMax 0, .set (ascii "bb") (ascii "1234") secondsMax 1]).2
        with maxMemory := 6 }
    s.store.WellFormed List.length ∧ [] ∉ s.memManager.lruQueue ∧
    heldBytes s.store.entries ≤ s.currentMemory ∧
    ∃ n ≤ s.memManager.lruQueue.length,
      (enforceMemoryLimits (HashTable.ops List.length) s).memManager.lruQueue =
        s.memManager.lruQueue.take n ∧
      (enforceMemoryLimits (HashTable.ops List.length) s).store.entries ~
        s.store.entries.filter (fun x => x.1 ∉ s.memManager.lruQueue.drop n) ∧
      (enforceMemoryLimits (HashTable.ops List.length) s).currentMemory = s.currentMemory -
        heldBytes (s.store.entries.filter fun x => x.1 ∈ s.memManager.lruQueue.drop n) ∧
      heldBytes (s.store.entries.filter fun x => x.1 ∈ s.memManager.lruQueue.drop n) ≤ s.currentMemory ∧
      ((enforceMemoryLimits (HashTable.ops List.length) s).currentMemory ≤ s.maxMemory ∨ n = 0) ∧
      ∀ j, n < j → j ≤ s.memManager.lruQueue.length → s.maxMemory < s.currentMemory -
        heldBytes (s.store.entries.filter fun x => x.1 ∈ s.memManager.lruQueue.drop j) := by
  intro s
  have hw : s.store.WellFormed List.length := ((refines_init List.length 100).run _).2.wf
  have hq : [] ∉ s.memManager.lruQueue := by decide
  have hc : heldBytes s.store.entries ≤ s.currentMemory := by decide
  exact ⟨hw, hq, hc, enforceMemoryLimits_evicts_lru List.length s hw hq hc⟩

/-- With a budget of 4 bytes, `set("", "v")`, `set("a", "b")`, `set("c", "d")`: the third call
counts 5 bytes, `evict_lru()` pops the stored empty key, and the loop stops there. Over the
budget, the queue not empty, all three entries still in the table, `""` no longer queued. -/
theorem set_stops_at_empty_key (hash : Bytes → Nat) :
    let s := ((init 4).run (HashTable.ops hash)
      [.set [] [118] secondsMax 0, .set [97] [98] secondsMax 0, .set [99] [100] secondsMax 0]).2
    s.maxMemory < s.currentMemory ∧ s.memManager.lruQueue = [[99], [97]] ∧
      s.store.entries.map Prod.fst ~ [[99], [97], []] := by
  obtain ⟨-, h⟩ := (refines_init hash 4).run
    [.set [] [118] secondsMax 0, .set [97] [98] secondsMax 0, .set [99] [100] secondsMax 0]
  refine ⟨?_, congrArg MemoryManager.lruQueue h.memManager |>.trans (by decide),
    (h.perm.map Prod.fst).trans (List.Perm.of_eq (by decide))⟩
  rw [h.maxMemory, h.currentMemory]
  decide

/-! ## Each call keeps the budget -/

/-- `set` of a key other than the empty one keeps the facts and ends within the budget. -/
theorem Budgeted.set (h : Budgeted a) {k : Bytes} (hk : k ≠ []) (v : Bytes) (ttl now : Int) :
    Budgeted (a.set listOps k v ttl now) := by
  have hpre := h.touch hk ⟨v, ttl, now⟩ (c := a.currentMemory -
    ((listOps.get a.store k).map fun old => k.length + old.value.length).getD 0 + (k.length + v.length))
    (by
      have := h.counted
      cases hl : a.store.lookup k with
      | none =>
        rw [HashTable.filter_key_ne_of_not_mem ((HashTable.lookup_eq_none_iff _ _).1 hl)]
        simp only [listOps_get, hl, Option.map_none', Option.getD_none]; omega
      | some e =>
        have := heldBytes_of_lookup h.nodup hl
        simp only [listOps_get, hl, Option.map_some', Option.getD_some]; omega)
  obtain ⟨hb, hx⟩ := hpre.enforceLoop ((a.memManager.updateLru k).lruQueue.length + 1)
    ((heldBytes_le_of_sublist (strays_touch_sublist k _)).trans h.fits)
  exact ⟨hb, (maxMemory_set _ _ _ _ _ _).symm ▸ hx (Nat.lt_succ_self _)⟩

/-- `get` keeps the facts and the budget. -/
theorem Budgeted.get (h : Budgeted a) (k : Bytes) (now checked : Int) :
    Budgeted (a.get listOps k now checked).2 := by
  cases hl : a.store.lookup k with
  | none => simpa only [StorageEngine.get, listOps_get, hl] using h
  | some e =>
    have hheld := heldBytes_of_lookup h.nodup hl
    have hkk := List.mem_map_of_mem Prod.fst ((HashTable.lookup_eq_some_iff h.nodup).1 hl)
    have hc := h.counted
    have hf := h.fits
    simp only [StorageEngine.get, listOps_get, hl]
    split
    · rw [listOps_remove, listOps_insert, HashTable.filter_key_ne_cons_self (by simp [keys])]
      exact ⟨h.drop k (List.Sublist.refl _) (by omega), by
        show heldBytes (a.store.filter fun n => n.1 ≠ k) ≤ a.maxMemory; omega⟩
    · exact ⟨h.touch (fun e => h.keyed (e ▸ hkk)) _ (by simpa only [← hheld] using hc), by
        show heldBytes (listOps.insert a.store k _) ≤ a.maxMemory; simp only [listOps_insert, heldBytes_cons]; omega⟩

/-- `del` keeps the facts and the budget. -/
theorem Budgeted.del (h : Budgeted a) (k : Bytes) : Budgeted (a.del listOps k).2 := by
  cases hl : a.store.lookup k with
  | none => simpa only [StorageEngine.del, listOps_get, hl] using h
  | some e =>
    have hheld := heldBytes_of_lookup h.nodup hl
    have hc := h.counted
    have hf := h.fits
    simp only [StorageEngine.del, listOps_get, listOps_remove, hl]
    exact ⟨h.drop k (List.filter_sublist _) (by omega), by
      show heldBytes (a.store.filter fun n => n.1 ≠ k) ≤ a.maxMemory; omega⟩

/-- The reaper's `store.remove(key)` keeps the facts and the budget. -/
theorem Budgeted.removeEntry (h : Budgeted a) (k : Bytes) : Budgeted (a.removeEntry listOps k) :=
  ⟨h.drop k (List.Sublist.refl _) ((heldBytes_filter_le _ _).trans h.counted),
    (heldBytes_filter_le _ _).trans h.fits⟩

/-- So does its `mem_manager.evict_lru(key)`, which leaves the table as it is. -/
theorem Budgeted.evictKey (h : Budgeted a) (k : Bytes) : Budgeted (a.evictKey k) :=
  ⟨⟨h.nodup, h.keyed, h.queueNodup.filter _, fun hn => h.named (List.mem_of_mem_filter hn), h.counted⟩,
    h.fits⟩

end StorageEngine

/-- Whether an event is a client call on `k`. -/
def Event.names (k : Bytes) : Event → Bool
  | .set key _ _ _ => key == k
  | .get key _ _ => key == k
  | .del key => key == k
  | _ => false

/-- The keys the reaper has still to remove from the table. -/
def Reaper.pending : Reaper → List Bytes
  | .idle => []
  | .removing keys => keys
  | .evicting _ keys => keys

namespace System

variable {T : Type} (ops : TableOps T)

end System

namespace StorageEngine

variable {hash : Bytes → Nat}

section Stranded

variable {a : StorageEngine (List (Bytes × Entry))} {j k : Bytes}

/-- INTERNAL: removing another key's node leaves `k`'s. -/
theorem lookup_remove_ne (hjk : j ≠ k) (l : List (Bytes × Entry)) :
    (listOps.remove l j).2.lookup k = l.lookup k :=
  (HashTable.lookup_filter_ne _ _ _).trans (if_neg (Ne.symm hjk))

/-- INTERNAL: so does writing it. -/
theorem lookup_insert_ne (hjk : j ≠ k) (l : List (Bytes × Entry)) (e : Entry) :
    (listOps.insert l j e).lookup k = l.lookup k := by
  rw [listOps_insert, HashTable.lookup_cons_pair, if_neg (Ne.symm hjk)]
  exact lookup_remove_ne hjk l

/-- INTERNAL: the eviction loop only drops the nodes of the keys it pops from the queue, so it
leaves alone a key the queue does not hold. -/
theorem enforceLoop_stray (fuel : Nat) :
    ∀ {a : StorageEngine (List (Bytes × Entry))}, k ∉ a.memManager.lruQueue →
      (enforceLoop listOps fuel a).store.lookup k = a.store.lookup k ∧
        k ∉ (enforceLoop listOps fuel a).memManager.lruQueue := by
  induction fuel with
  | zero => exact fun hk => ⟨rfl, hk⟩
  | succ fuel ih =>
    intro a hk
    by_cases hlt : a.maxMemory < a.currentMemory
    swap
    · rw [StorageEngine.enforceLoop, if_neg hlt]; exact ⟨rfl, hk⟩
    rcases List.eq_nil_or_concat a.memManager.lruQueue with hq | ⟨q, i, hq⟩
    · rw [StorageEngine.enforceLoop, if_pos hlt, MemoryManager.evictLru_of_nil hq]
      exact ⟨rfl, hk⟩
    rw [List.concat_eq_append] at hq
    have hkq : k ∉ q := fun h => hk (hq ▸ List.mem_append_left _ h)
    have hki : i ≠ k := fun e => hk (hq ▸ e ▸ List.mem_append_right _ (List.mem_singleton_self _))
    rw [StorageEngine.enforceLoop, if_pos hlt, MemoryManager.evictLru_of_concat hq]
    dsimp only
    split
    · exact ⟨rfl, hkq⟩
    split
    · exact ⟨(ih hkq).1.trans (lookup_remove_ne hki _), (ih hkq).2⟩
    · exact ih hkq

/-- `k` stands stranded with entry `e` in the engine over the list, among the reaper's pending
keys `r`: its node is in the table, and the key in neither the queue nor `r`; the entry never
expires. -/
structure Stranded (k : Bytes) (e : Entry) (a : StorageEngine (List (Bytes × Entry))) (r : List Bytes) :
    Prop where
  held : a.store.lookup k = some e
  unqueued : k ∉ a.memManager.lruQueue
  unpending : k ∉ r
  forever : e.ttl = secondsMax

variable {e : Entry} {r : List Bytes}

/-- INTERNAL: a `set` of another key keeps `k` stranded: the touch does not queue `k`, and the
eviction loop never pops it. -/
theorem Stranded.set (h : Stranded k e a r) (hjk : j ≠ k) (v : Bytes) (ttl now : Int) :
    Stranded k e (a.set listOps j v ttl now) r := by
  have hq : k ∉ (a.memManager.updateLru j).lruQueue := by
    simpa [MemoryManager.mem_updateLru, Ne.symm hjk] using h.unqueued
  obtain ⟨hl, hu⟩ := enforceLoop_stray
    (a := ⟨listOps.insert a.store j ⟨v, ttl, now⟩, a.memManager.updateLru j, _, a.maxMemory⟩) _ hq
  exact ⟨hl.trans ((lookup_insert_ne hjk _ _).trans h.held), hu, h.unpending, h.forever⟩

/-- INTERNAL: a `get` of another key keeps `k` stranded. -/
theorem Stranded.get (h : Stranded k e a r) (hjk : j ≠ k) (now checked : Int) :
    Stranded k e (a.get listOps j now checked).2 r := by
  simp only [StorageEngine.get, listOps_get]
  split
  · exact h
  split
  · exact ⟨(lookup_remove_ne hjk _).trans ((lookup_insert_ne hjk _ _).trans h.held), h.unqueued,
      h.unpending, h.forever⟩
  · exact ⟨(lookup_insert_ne hjk _ _).trans h.held,
      by simpa [MemoryManager.mem_updateLru, Ne.symm hjk] using h.unqueued, h.unpending, h.forever⟩

/-- INTERNAL: a `del` of another key keeps `k` stranded. -/
theorem Stranded.del (h : Stranded k e a r) (hjk : j ≠ k) : Stranded k e (a.del listOps j).2 r := by
  simp only [StorageEngine.del, listOps_get]
  split
  · exact h
  · exact ⟨(lookup_remove_ne hjk _).trans h.held,
      fun hm => h.unqueued (MemoryManager.mem_evictLruKey.1 hm).1, h.unpending, h.forever⟩

/-- INTERNAL: the scan does not collect a stranded key: its entry never expires. -/
theorem Stranded.not_mem_expiredKeys {hash : Bytes → Nat} {s : StorageEngine (HashTable Bytes Entry)}
    (hs : Refines hash s a) (h : Stranded k e a r) (now : Int) :
    k ∉ expiredKeys (HashTable.ops hash) s.store now := fun hm => by
  have hm' := (expiredKeys_ops hs.wf hs.perm now).subset hm
  simp only [expiredKeys, listOps_nodes, List.mem_map, List.mem_filter] at hm'
  obtain ⟨n, ⟨hn, hx⟩, rfl⟩ := hm'
  have hnd : (keys a.store).Nodup := (hs.perm.map Prod.fst).nodup_iff.1 hs.wf.nodup_keys
  have hne : n.2 = e := Option.some.inj (((HashTable.lookup_eq_some_iff hnd).2 hn).symm.trans h.held)
  simp [hne, expiredAt_of_sentinel e h.forever] at hx

/-- INTERNAL: every step of the system other than a client call on `k` keeps `k` stranded. -/
theorem Stranded.step {hash : Bytes → Nat} {sys sys' : System (HashTable Bytes Entry)}
    (hs : Refines hash sys.engine a) (h : Stranded k e a sys.reaper.pending) {ev : Event}
    (hev : ev.names k = false) (hstep : sys.step (HashTable.ops hash) ev = some sys') :
    ∃ a', Refines hash sys'.engine a' ∧ Stranded k e a' sys'.reaper.pending := by
  cases ev with
  | set j v ttl now =>
    cases hstep
    exact ⟨_, hs.set j v ttl now, h.set (by simpa [Event.names] using hev) v ttl now⟩
  | get j now checked =>
    cases hstep
    exact ⟨_, (hs.get j now checked).2, h.get (by simpa [Event.names] using hev) now checked⟩
  | del j =>
    cases hstep
    exact ⟨_, (hs.del j).2, h.del (by simpa [Event.names] using hev)⟩
  | scan now =>
    simp only [System.step] at hstep
    split at hstep <;> cases hstep
    exact ⟨a, hs, h.held, h.unqueued, h.not_mem_expiredKeys hs now, h.forever⟩
  | removeNext =>
    simp only [System.step] at hstep
    split at hstep <;> cases hstep
    · exact ⟨a, hs, h.held, h.unqueued, List.not_mem_nil _, h.forever⟩
    · rename_i j js hr
      have hu : k ∉ j :: js := by simpa [Reaper.pending, hr] using h.unpending
      exact ⟨_, hs.removeEntry j, (lookup_remove_ne (Ne.symm (List.ne_of_not_mem_cons hu)) _).trans h.held,
        h.unqueued, List.not_mem_of_not_mem_cons hu, h.forever⟩
  | evictNext =>
    simp only [System.step] at hstep
    split at hstep <;> cases hstep
    rename_i j js hr
    exact ⟨_, hs.evictKey j, h.held, fun hm => h.unqueued (MemoryManager.mem_evictLruKey.1 hm).1,
      by simpa [Reaper.pending, hr] using h.unpending, h.forever⟩

/-- INTERNAL: so does a run of such steps. -/
theorem Stranded.run {hash : Bytes → Nat} (events : List Event) (hev : ∀ ev ∈ events, ev.names k = false) :
    ∀ {sys sys' : System (HashTable Bytes Entry)} {a : StorageEngine (List (Bytes × Entry))},
      sys.run (HashTable.ops hash) events = some sys' →
      Refines hash sys.engine a → Stranded k e a sys.reaper.pending →
      ∃ a', Refines hash sys'.engine a' ∧ Stranded k e a' sys'.reaper.pending := by
  induction events with
  | nil => intro sys sys' a hr hs h; cases hr; exact ⟨a, hs, h⟩
  | cons ev evs ih =>
    intro sys sys' a hr hs h
    obtain ⟨sys₁, hstep, hr⟩ := Option.bind_eq_some.1 hr
    obtain ⟨a₁, hs₁, h₁⟩ := Stranded.step hs h (hev ev (List.mem_cons_self _ _)) hstep
    exact ih (fun ev hm => hev ev (List.mem_cons_of_mem _ hm)) hr hs₁ h₁

end Stranded

/-- For every hash function, on every state of the system with a well-formed table whose reaper
is about to remove `k` (and no second copy of `k` pending), a `set(k, v)` with the sentinel ttl
that lands between the round's `store.remove(k)` and `mem_manager.evict_lru(k)` strands `k`:
if the `set` keeps its entry, then after the round and after any further steps that make no
client call on `k`, the entry is still in the table and `k` is not in the LRU queue, so no
`enforce_memory_limits` ever evicts it. -/
theorem set_mid_round_strands_key (hash : Bytes → Nat) (post : List Event) {k v : Bytes} {now : Int}
    {ks : List Bytes} {sys sys' : System (HashTable Bytes Entry)}
    (hw : sys.engine.store.WellFormed hash) (hr : sys.reaper = .removing (k :: ks)) (hks : k ∉ ks)
    (hkept : ((sys.engine.removeEntry (HashTable.ops hash) k).set (HashTable.ops hash) k v secondsMax now).store.get
      hash k = some ⟨v, secondsMax, now⟩)
    (hpost : ∀ ev ∈ post, ev.names k = false)
    (hrun : sys.run (HashTable.ops hash) (.removeNext :: .set k v secondsMax now :: .evictNext :: post) =
      some sys') :
    sys'.engine.store.get hash k = some ⟨v, secondsMax, now⟩ ∧ k ∉ sys'.engine.memManager.lruQueue := by
  have h₀ : Refines hash sys.engine ⟨sys.engine.store.entries, sys.engine.memManager,
      sys.engine.currentMemory, sys.engine.maxMemory⟩ := ⟨hw, List.Perm.refl _, rfl, rfl, rfl⟩
  have h₁ := (h₀.removeEntry k).set k v secondsMax now
  have h₂ := h₁.evictKey k
  simp only [System.run, System.step, hr, Option.some_bind] at hrun
  obtain ⟨a', hs', h'⟩ := Stranded.run post hpost hrun h₂
    ⟨(get_ops h₁.wf h₁.perm k).symm.trans hkept, fun hm => (MemoryManager.mem_evictLruKey.1 hm).2 rfl,
      hks, rfl⟩
  refine ⟨?_, hs'.memManager ▸ h'.unqueued⟩
  rw [← HashTable.ops_get, get_ops hs'.wf hs'.perm]
  exact h'.held

/-- An eight-byte budget, after `set("k", "v", 0s)` at `0` and the reaper's scan at `5` ns, which
collects `"k"`: the reaper removes `"k"`'s node, `set("k", "w")` writes it again, the reaper takes
`"k"` out of the queue, and a later `set("a", "xyzwvu")` goes over the budget: the loop evicts
`"a"`, the one queued key, and keeps the stranded `"k"`. -/
theorem set_between_halves_strands_key :
    let sys : System (HashTable Bytes Entry) :=
      ⟨(init 8).set (HashTable.ops List.length) [107] [118] 0 0, .removing [[107]]⟩
    (System.init (init 8)).run (HashTable.ops List.length) [.set [107] [118] 0 0, .scan 5] = some sys ∧
      sys.engine.store.WellFormed List.length ∧ sys.reaper = .removing [[107]] ∧ [107] ∉ ([] : List Bytes) ∧
      ((sys.engine.removeEntry (HashTable.ops List.length) [107]).set (HashTable.ops List.length) [107] [119]
        secondsMax 6).store.get List.length [107] = some ⟨[119], secondsMax, 6⟩ ∧
      (∀ ev ∈ [Event.set (ascii "a") (ascii "xyzwvu") secondsMax 7], ev.names [107] = false) ∧
      ∃ sys', sys.run (HashTable.ops List.length) [.removeNext, .set [107] [119] secondsMax 6, .evictNext,
        .set (ascii "a") (ascii "xyzwvu") secondsMax 7] = some sys' ∧
        sys'.engine.memManager.lruQueue = [] ∧
        sys'.engine.store.get List.length [107] = some ⟨[119], secondsMax, 6⟩ ∧
        [107] ∉ sys'.engine.memManager.lruQueue := by
  intro sys
  have h₀ := (refines_init List.length 8).set [107] [118] 0 0
  have h₁ := (h₀.removeEntry [107]).set [107] [119] secondsMax 6
  have hkept : ((sys.engine.removeEntry (HashTable.ops List.length) [107]).set (HashTable.ops List.length)
      [107] [119] secondsMax 6).store.get List.length [107] = some ⟨[119], secondsMax, 6⟩ := by
    rw [← HashTable.ops_get, get_ops h₁.wf h₁.perm]; decide
  have h₂ := (h₁.evictKey [107]).set (ascii "a") (ascii "xyzwvu") secondsMax 7
  refine ⟨rfl, h₀.wf, rfl, List.not_mem_nil _, hkept, by decide, _, rfl, ?_,
    set_mid_round_strands_key List.length [.set (ascii "a") (ascii "xyzwvu") secondsMax 7] h₀.wf rfl
      (List.not_mem_nil _) hkept (by decide) rfl⟩
  dsimp only
  exact (congrArg MemoryManager.lruQueue h₂.memManager).trans (by decide)

end StorageEngine

end BlinkDb
