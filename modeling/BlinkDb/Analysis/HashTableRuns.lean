import BlinkDb.Analysis.HashTableMap
import BlinkDb.Spec.AssocMap
import Mathlib.Algebra.Group.Nat.Basic

/-!
# Runs of calls on a table

Three results on `HashTable<K, V>` over sequences of calls, for every hash function.

* `resize(new_capacity)` moves every node of any table into a vector of `new_capacity`
  buckets, each node into the bucket its key hashes to, and keeps `size`
  (`resize_moves_nodes`).
* From any table the constructor builds, every sequence of `insert`, `remove` and `get` calls
  is answered as the finite map of `BlinkDb.Spec.AssocMap` answers it, and the table stays well
  formed and holds the map's pairs (`calls_refine_assocMap`). The relation `Represents` is kept
  by one call (`Represents.call`), hence by a run.
* From the default capacity 8, every sequence of calls keeps the table in the load-factor band
  of its two rules (`calls_keep_loadBand`): the capacity is `8 · 2^j`, `size` is below
  `0.7 · capacity + 1`, and above the default capacity `size` is at least `0.2 · capacity`. The
  band is a fact about the two counters alone, so it holds for any keys and any hash function,
  well formed table or not. `insert_counts` and `remove_counts` say what one call does to them.
-/

set_option autoImplicit false

open scoped List

namespace BlinkDb

namespace HashTable

variable {K V : Type} [DecidableEq K] (hash : K → Nat)

/-! ## `resize` -/

omit [DecidableEq K] in
/-- `resize(new_capacity)` with `new_capacity ≥ 1`, on any table: a vector of `new_capacity`
buckets, every node of the old vector in the bucket `hash(key) % new_capacity`, none lost or
duplicated, and `size` kept. -/
theorem resize_moves_nodes (t : HashTable K V) {c : Nat} (hc : 1 ≤ c) :
    (t.resize hash c).table.length = c ∧ (t.resize hash c).capacity = c ∧
      (t.resize hash c).size = t.size ∧ Placed hash c (t.resize hash c).table ∧
      (t.resize hash c).entries ~ t.entries := by
  obtain ⟨h1, h2, h3⟩ := rehashTable_spec hash hc t.table (List.replicate c []) (by simp)
    (placed_replicate hash c)
  exact ⟨h1, rfl, rfl, h2, by simpa [entries, resize] using h3⟩

/-- Two buckets holding three nodes, rehashed into four. -/
theorem resize_two_buckets_to_four :
    let t : HashTable Nat Nat := ⟨[[(2, 20)], [(1, 10), (3, 30)]], 2, 3⟩
    1 ≤ 4 ∧ (t.resize id 4).table.length = 4 ∧ (t.resize id 4).capacity = 4 ∧
      (t.resize id 4).size = t.size ∧ Placed id 4 (t.resize id 4).table ∧
      (t.resize id 4).entries ~ t.entries :=
  ⟨by decide, resize_moves_nodes id _ (by decide)⟩

/-! ## The table refines the finite map -/

/-- The table stands for the map `m`: it is well formed and its nodes are `m`'s pairs. -/
structure Represents (t : HashTable K V) (m : AssocMap K V) : Prop where
  wf : t.WellFormed hash
  perm : t.entries ~ m

variable {hash}

/-- One call answers as the map does and keeps the relation. -/
theorem Represents.call {t : HashTable K V} {m : AssocMap K V} (h : Represents hash t m)
    (c : Call K V) :
    (t.call hash c).1 = (m.call c).1 ∧ Represents hash (t.call hash c).2 (m.call c).2 := by
  cases c with
  | insert k v =>
    obtain ⟨hw, hp⟩ := h.wf.insert k v
    exact ⟨rfl, hw, hp.trans ((h.perm.filter _).cons _)⟩
  | remove k =>
    obtain ⟨hw, hp, hb⟩ := h.wf.remove k
    refine ⟨?_, hw, hp.trans (h.perm.filter _)⟩
    simp only [HashTable.call, AssocMap.call, hb, isSome_lookup, (h.perm.map Prod.fst).mem_iff]
  | get k => exact ⟨by simp only [HashTable.call, AssocMap.call, h.wf.get_eq_lookup h.perm k], h⟩

/-- INTERNAL: a run of calls answers as the map does and keeps the relation. -/
theorem Represents.calls {t : HashTable K V} {m : AssocMap K V} (h : Represents hash t m)
    (cs : List (Call K V)) :
    (t.calls hash cs).1 = (m.calls cs).1 ∧ Represents hash (t.calls hash cs).2 (m.calls cs).2 := by
  induction cs generalizing t m with
  | nil => exact ⟨rfl, h⟩
  | cons c cs ih =>
    obtain ⟨hr, h'⟩ := h.call c
    obtain ⟨hr', h''⟩ := ih h'
    exact ⟨by simp only [HashTable.calls, AssocMap.calls, hr, hr'], h''⟩

/-- From any table the constructor builds, every sequence of calls is answered as the finite
map answers it: `get(k)` finds `v` exactly when the map maps `k` to `v`, and `remove(k)` returns
`true` exactly when the map maps `k`. Throughout, the table is well formed (the representation
invariant, across every growth and shrink) and holds the map's pairs, so `size` is the number of
the map's keys. -/
theorem calls_refine_assocMap (hash : K → Nat) {c : Nat} {t : HashTable K V}
    (ht : create c = .ok t) (cs : List (Call K V)) :
    (t.calls hash cs).1 = (AssocMap.calls [] cs).1 ∧ (t.calls hash cs).2.WellFormed hash ∧
      (t.calls hash cs).2.entries ~ (AssocMap.calls [] cs).2 ∧
      (t.calls hash cs).2.size = (AssocMap.calls [] cs).2.length := by
  have hinit : Represents hash t [] := by
    unfold create at ht
    split at ht
    · cases ht
    · cases ht
      exact ⟨wellFormed_empty (by omega), by simp [entries, empty]⟩
  obtain ⟨hr, hw, hp⟩ := hinit.calls cs
  exact ⟨hr, hw, hp, hw.size_eq.trans hp.length_eq⟩

/-- One bucket; two keys written, one read back, removed, and read again. -/
theorem calls_one_bucket :
    let cs : List (Call Nat Nat) :=
      [.insert 1 10, .insert 2 20, .insert 1 11, .get 1, .remove 1, .get 1, .remove 3]
    create 1 = .ok (empty 1 : HashTable Nat Nat) ∧
      ((empty 1 : HashTable Nat Nat).calls id cs).1 = (AssocMap.calls [] cs).1 ∧
      ((empty 1 : HashTable Nat Nat).calls id cs).2.WellFormed id ∧
      ((empty 1 : HashTable Nat Nat).calls id cs).2.entries ~ (AssocMap.calls [] cs).2 ∧
      ((empty 1 : HashTable Nat Nat).calls id cs).2.size = (AssocMap.calls [] cs).2.length :=
  ⟨rfl, calls_refine_assocMap (c := 1) (t := empty 1) id rfl _⟩

/-! ## The load-factor band -/

/-- The band of a table of the default capacity: its capacity is `8 · 2^j`;
`size < 0.7 · capacity + 1`; and when the capacity is above 8, `size ≥ 0.2 · capacity`. Over the
naturals these are the linear facts below. -/
structure LoadBand (t : HashTable K V) : Prop where
  capacity_pow : ∃ j, t.capacity = defaultCapacity * 2 ^ j
  size_lt : 10 * t.size < 7 * t.capacity + 10
  size_ge : defaultCapacity < t.capacity → t.capacity ≤ 5 * t.size

variable (hash)

omit [DecidableEq K] in
/-- A resize keeps the count of nodes. -/
@[simp] theorem resize_size (t : HashTable K V) (c : Nat) : (t.resize hash c).size = t.size := rfl

omit [DecidableEq K] in
/-- A resize sets the capacity it is asked for. -/
@[simp] theorem resize_capacity (t : HashTable K V) (c : Nat) : (t.resize hash c).capacity = c := rfl

/-- What `insert` does to the counters: the capacity doubles when `size ≥ 0.7 · capacity`, and
`size` grows by at most one. -/
theorem insert_counts (t : HashTable K V) (k : K) (v : V) :
    (t.insert hash k v).capacity =
        (if 7 * t.capacity ≤ 10 * t.size then 2 * t.capacity else t.capacity) ∧
      t.size ≤ (t.insert hash k v).size ∧ (t.insert hash k v).size ≤ t.size + 1 := by
  unfold HashTable.insert
  generalize hg : (if 7 * t.capacity ≤ 10 * t.size then t.resize hash (2 * t.capacity) else t) = t1
  have h1 : t1.capacity = (if 7 * t.capacity ≤ 10 * t.size then 2 * t.capacity else t.capacity) ∧
      t1.size = t.size := by
    subst hg; split <;> exact ⟨rfl, rfl⟩
  dsimp only
  split
  · exact ⟨h1.1, h1.2.ge, h1.2 ▸ Nat.le_succ _⟩
  · exact ⟨h1.1, h1.2 ▸ Nat.le_succ _, by simp only [h1.2, le_refl]⟩

/-- What `remove` does to the counters: nothing when the key is not found; otherwise `size`
drops by one, and the capacity halves when it is above 8 and `size < 0.2 · capacity`. -/
theorem remove_counts (t : HashTable K V) (k : K) :
    (t.remove hash k).2 = t ∨
      ((t.remove hash k).2.size = t.size - 1 ∧
        (t.remove hash k).2.capacity =
          if 8 < t.capacity ∧ 5 * (t.size - 1) < t.capacity then t.capacity / 2 else t.capacity) := by
  unfold HashTable.remove
  dsimp only
  split
  · exact .inl rfl
  · right; dsimp only; split <;> exact ⟨rfl, rfl⟩

variable {hash}

omit [DecidableEq K] in
/-- INTERNAL: the band with the default capacity written out. -/
theorem loadBand_iff {t : HashTable K V} :
    t.LoadBand ↔ (∃ j, t.capacity = 8 * 2 ^ j) ∧ 10 * t.size < 7 * t.capacity + 10 ∧
      (8 < t.capacity → t.capacity ≤ 5 * t.size) :=
  ⟨fun ⟨a, b, c⟩ => ⟨a, b, c⟩, fun ⟨a, b, c⟩ => ⟨a, b, c⟩⟩

/-- INTERNAL: a capacity `8 · 2^j` is at least 8, and when it is above 8, at least 16 and twice
a capacity `8 · 2^(j - 1)`. -/
theorem le_of_capacity_pow {c j : Nat} (h : c = 8 * 2 ^ j) :
    8 ≤ c ∧ (8 < c → 16 ≤ c ∧ c / 2 = 8 * 2 ^ (j - 1)) := by
  subst h
  cases j with
  | zero => simp
  | succ j =>
    have : 1 ≤ 2 ^ j := Nat.one_le_two_pow
    simp only [Nat.pow_succ, Nat.add_sub_cancel]
    omega

/-- INTERNAL: `insert` keeps the table within its load band. -/
theorem LoadBand.insert {t : HashTable K V} (h : t.LoadBand) (k : K) (v : V) :
    (t.insert hash k v).LoadBand := by
  obtain ⟨⟨j, hj⟩, hlt, hge⟩ := loadBand_iff.1 h
  obtain ⟨hc, hs1, hs2⟩ := insert_counts hash t k v
  have h8 := (le_of_capacity_pow hj).1
  rw [loadBand_iff]
  split at hc
  · exact ⟨⟨j + 1, by rw [hc, hj, Nat.pow_succ]; omega⟩, by omega, fun _ => by omega⟩
  · exact ⟨⟨j, hc.trans hj⟩, by omega, fun h => by have := hge (hc ▸ h); omega⟩

/-- INTERNAL: `remove` keeps the table within its load band. -/
theorem LoadBand.remove {t : HashTable K V} (h : t.LoadBand) (k : K) :
    (t.remove hash k).2.LoadBand := by
  rcases remove_counts hash t k with he | ⟨hs, hc⟩
  · rwa [he]
  obtain ⟨⟨j, hj⟩, hlt, hge⟩ := loadBand_iff.1 h
  rw [loadBand_iff]
  split at hc
  · rename_i hshrink
    obtain ⟨h16, hhalf⟩ := (le_of_capacity_pow hj).2 hshrink.1
    have := hge hshrink.1
    exact ⟨⟨j - 1, hc.trans hhalf⟩, by omega, fun _ => by omega⟩
  · exact ⟨⟨j, hc.trans hj⟩, by omega, fun h => by rw [hc] at h ⊢; omega⟩

/-- INTERNAL: every call keeps the table within its load band. -/
theorem LoadBand.call {t : HashTable K V} (h : t.LoadBand) (c : Call K V) :
    (t.call hash c).2.LoadBand := by
  cases c with
  | insert k v => exact h.insert k v
  | remove k => exact h.remove k
  | get k => exact h

/-- INTERNAL: so does every run of calls. -/
theorem LoadBand.calls {t : HashTable K V} (h : t.LoadBand) (cs : List (Call K V)) :
    (t.calls hash cs).2.LoadBand := by
  induction cs generalizing t with
  | nil => exact h
  | cons c cs ih => exact ih (h.call c)

/-- From the default capacity 8, with any keys and any hash function, every state a sequence
of calls reaches has a capacity `8 · 2^j`, holds fewer than `0.7 · capacity + 1` nodes, and when
its capacity is above 8 holds at least `0.2 · capacity`. -/
theorem calls_keep_loadBand (hash : K → Nat) (cs : List (Call K V)) :
    ((empty defaultCapacity : HashTable K V).calls hash cs).2.LoadBand :=
  LoadBand.calls (loadBand_iff.2 ⟨⟨0, rfl⟩, (by decide : 10 * 0 < 7 * 8 + 10),
    fun h => absurd h (by decide : ¬ 8 < 8)⟩) cs

end HashTable

end BlinkDb
