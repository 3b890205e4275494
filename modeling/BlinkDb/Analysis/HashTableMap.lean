import BlinkDb.Model.HashTable
import Mathlib.Data.List.Perm.Basic
import Mathlib.Data.List.Nodup

/-!
# The chained table holds a finite map

`HashTable` is a finite map from keys to values: its nodes, bucket after bucket
(`HashTable.entries`), are the map's pairs in some order. `WellFormed` is the representation
invariant the code relies on without stating it: `capacity` buckets, at least one; every node
in the bucket its key hashes to; no key twice; `size` counting the nodes.

The ladder is short. The three chain walks are read off as list splits
(`chainFind_eq_some_iff`, `chainUpdate_eq_some`, `chainRemove_eq_some`); writing one bucket
changes the flattened table by that bucket only (`flatten_set_perm`); `resize` moves every
node and keeps the invariant (`resize_spec`, one fold per loop of the source). On top of these,
for every hash function:

* `WellFormed.get_eq_some_iff`: `get` finds exactly the nodes of the table;
* `WellFormed.insert`: the nodes after `insert key value` are the old ones with `key`'s
  replaced by `(key, value)`;
* `WellFormed.remove`: the nodes after `remove key` are the old ones without `key`'s, and the
  result says whether there was one.

Growth and shrink happen inside these operations, so every statement holds across resizes.
-/

set_option autoImplicit false

open scoped List

namespace BlinkDb

namespace HashTable

variable {K V : Type} [DecidableEq K]

/-- The keys of a list of nodes. -/
abbrev keys (c : List (K × V)) : List K := c.map Prod.fst

/-! ## Lists of nodes as association lists

`List.lookup` compares keys with `==`; the lemmas take any lawful `BEq`, so that they apply to
whichever instance a lookup was elaborated with. -/

section AssocList

variable [BEq K] [LawfulBEq K]

/-- INTERNAL: a lookup at the front of an association list. -/
@[simp] theorem lookup_cons_pair (l : List (K × V)) (a k : K) (b : V) :
    ((a, b) :: l).lookup k = if k = a then some b else l.lookup k := by
  by_cases h : k = a
  · subst h; simp
  · simp [List.lookup_cons, beq_eq_false_iff_ne.2 h, h]

/-- INTERNAL: a lookup finds nothing exactly when the key is not there. -/
theorem lookup_eq_none_iff (l : List (K × V)) (k : K) : l.lookup k = none ↔ k ∉ keys l := by
  induction l with
  | nil => simp
  | cons p l ih =>
    obtain ⟨a, b⟩ := p
    rw [show keys ((a, b) :: l) = a :: keys l from rfl, List.mem_cons]
    by_cases h : k = a
    · simp [h]
    · rw [lookup_cons_pair, if_neg h, ih, or_iff_right h]

/-- INTERNAL: with one pair per key, a lookup finds exactly the pair that is there. -/
theorem lookup_eq_some_iff {l : List (K × V)} (hnd : (keys l).Nodup) {k : K} {v : V} :
    l.lookup k = some v ↔ (k, v) ∈ l := by
  induction l with
  | nil => simp
  | cons p l ih =>
    obtain ⟨a, b⟩ := p
    simp only [keys, List.map_cons, List.nodup_cons] at hnd
    by_cases h : k = a
    · subst h
      have hv : (k, v) ∉ l := fun hv => hnd.1 (List.mem_map.2 ⟨_, hv, rfl⟩)
      simp [hv, eq_comm]
    · have hv : (k, v) ≠ (a, b) := fun e => h (Prod.mk.inj e).1
      simp [ih hnd.2, h]

/-- INTERNAL: a lookup finds something exactly when the key is there. -/
theorem isSome_lookup (l : List (K × V)) (k : K) : (l.lookup k).isSome = decide (k ∈ keys l) := by
  rw [Bool.eq_iff_iff, decide_eq_true_iff, ← not_iff_not, Option.not_isSome_iff_eq_none,
    lookup_eq_none_iff]

/-- Filtering a key out leaves every other key's value. -/
theorem lookup_filter_ne (l : List (K × V)) (k k' : K) :
    (l.filter fun p => p.1 ≠ k').lookup k = if k = k' then none else l.lookup k := by
  induction l with
  | nil => simp
  | cons p l ih =>
    obtain ⟨a, b⟩ := p
    by_cases ha : a = k'
    · rw [List.filter_cons_of_neg (by simpa using ha), ih]
      subst ha; by_cases hk : k = a <;> simp [hk]
    · rw [List.filter_cons_of_pos (by simpa using ha), lookup_cons_pair, lookup_cons_pair, ih]
      by_cases hk : k = a <;> simp [hk, ha]

end AssocList

/-- Filtering out a key that is not there changes nothing. -/
theorem filter_key_ne_of_not_mem {k : K} {l : List (K × V)} (h : k ∉ keys l) :
    l.filter (fun n => n.1 ≠ k) = l :=
  List.filter_eq_self.2 fun n hn => by simpa using fun e => h (List.mem_map.2 ⟨n, hn, e⟩)

/-- INTERNAL: the walk of `get` fails exactly on a chain without the key. -/
theorem chainFind_eq_none_iff (key : K) (c : List (K × V)) :
    chainFind key c = none ↔ key ∉ keys c := by
  induction c with
  | nil => simp [chainFind]
  | cons n rest ih =>
    by_cases h : n.1 = key
    · simp [chainFind, h]
    · simp [chainFind, h, ih, Ne.symm h]

/-- INTERNAL: on a chain without repeated keys, the walk of `get` finds exactly its nodes. -/
theorem chainFind_eq_some_iff {key : K} {v : V} {c : List (K × V)} (hnd : (keys c).Nodup) :
    chainFind key c = some v ↔ (key, v) ∈ c := by
  induction c with
  | nil => simp [chainFind]
  | cons n rest ih =>
    obtain ⟨k, w⟩ := n
    simp only [keys, List.map_cons, List.nodup_cons] at hnd
    by_cases h : k = key
    · subst h
      have hv : (k, v) ∉ rest := fun hv => hnd.1 (List.mem_map.2 ⟨_, hv, rfl⟩)
      simp [chainFind, hv, eq_comm]
    · have hv : (key, v) ≠ (k, w) := fun e => h (Prod.mk.inj e).1.symm
      simp [chainFind, h, ih hnd.2, hv]

/-- The node layout that `chainUpdate` and `chainRemove` find. -/
theorem chainUpdate_eq_some {key : K} {value : V} {c c' : List (K × V)}
    (h : chainUpdate key value c = some c') :
    ∃ pre old post, c = pre ++ (key, old) :: post ∧ key ∉ keys pre ∧ c' = pre ++ (key, value) :: post := by
  induction c generalizing c' with
  | nil => simp [chainUpdate] at h
  | cons n rest ih =>
    by_cases hk : n.1 = key
    · simp only [chainUpdate, hk, if_true, Option.some.injEq] at h
      exact ⟨[], n.2, rest, by simp [← hk], by simp, by simp [← h, hk]⟩
    · simp only [chainUpdate, hk, if_false, Option.map_eq_some'] at h
      obtain ⟨c'', hc'', rfl⟩ := h
      obtain ⟨pre, old, post, rfl, hpre, rfl⟩ := ih hc''
      exact ⟨n :: pre, old, post, rfl, by simp [hpre, Ne.symm hk], rfl⟩

/-- INTERNAL: the walk of `insert` falls through exactly on a chain without the key. -/
theorem chainUpdate_eq_none_iff (key : K) (value : V) (c : List (K × V)) :
    chainUpdate key value c = none ↔ key ∉ keys c := by
  induction c with
  | nil => simp [chainUpdate]
  | cons n rest ih =>
    by_cases h : n.1 = key
    · simp [chainUpdate, h]
    · simp [chainUpdate, h, ih, Ne.symm h]

/-- INTERNAL: the walk of `remove` unlinks the first node with the key. -/
theorem chainRemove_eq_some {key : K} {c c' : List (K × V)} (h : chainRemove key c = some c') :
    ∃ pre old post, c = pre ++ (key, old) :: post ∧ key ∉ keys pre ∧ c' = pre ++ post := by
  induction c generalizing c' with
  | nil => simp [chainRemove] at h
  | cons n rest ih =>
    by_cases hk : n.1 = key
    · simp only [chainRemove, hk, if_true, Option.some.injEq] at h
      exact ⟨[], n.2, rest, by simp [← hk], by simp, by simp [← h]⟩
    · simp only [chainRemove, hk, if_false, Option.map_eq_some'] at h
      obtain ⟨c'', hc'', rfl⟩ := h
      obtain ⟨pre, old, post, rfl, hpre, rfl⟩ := ih hc''
      exact ⟨n :: pre, old, post, rfl, by simp [hpre, Ne.symm hk], rfl⟩

/-- INTERNAL: the walk of `remove` finds nothing exactly on a chain without the key. -/
theorem chainRemove_eq_none_iff (key : K) (c : List (K × V)) :
    chainRemove key c = none ↔ key ∉ keys c := by
  induction c with
  | nil => simp [chainRemove]
  | cons n rest ih =>
    by_cases h : n.1 = key
    · simp [chainRemove, h]
    · simp [chainRemove, h, ih, Ne.symm h]

/-! ## Buckets -/

section Buckets
variable {α : Type}

/-- INTERNAL: reading bucket `j` after writing bucket `i`. -/
theorem getD_set_nil (l : List (List α)) (i j : Nat) (c : List α) :
    (l.set i c).getD j [] = if i = j ∧ i < l.length then c else l.getD j [] := by
  simp only [List.getD_eq_getElem?_getD, List.getElem?_set]
  by_cases h : i = j
  · subst h; by_cases h' : i < l.length <;> simp [h', List.getElem?_eq_none_iff.2, Nat.le_of_not_lt]
  · simp [h]

/-- INTERNAL: writing bucket `i` changes the flattened table by that bucket only. -/
theorem flatten_set_perm {l : List (List α)} {i : Nat} (hi : i < l.length) (c : List α) :
    (l.set i c).flatten ~ c ++ (l.set i []).flatten := by
  rw [List.set_eq_take_append_cons_drop, List.set_eq_take_append_cons_drop, if_pos hi, if_pos hi]
  simp only [List.flatten_append, List.flatten_cons, List.nil_append, ← List.append_assoc]
  exact (List.perm_append_comm : _ ++ c ~ c ++ _).append_right _

/-- INTERNAL: the flattened table is bucket `i` and the rest. -/
theorem flatten_perm_getD {l : List (List α)} {i : Nat} (hi : i < l.length) :
    l.flatten ~ l.getD i [] ++ (l.set i []).flatten := by
  have e : l = l.take i ++ l[i] :: l.drop (i + 1) := by
    rw [List.getElem_cons_drop, List.take_append_drop]
  rw [List.set_eq_take_append_cons_drop, if_pos hi, List.getD_eq_getElem?_getD,
    List.getElem?_eq_getElem hi, Option.getD_some]
  conv_lhs => rw [e]
  simp only [List.flatten_append, List.flatten_cons, List.nil_append, ← List.append_assoc]
  exact (List.perm_append_comm : _ ++ l[i] ~ l[i] ++ _).append_right _

/-- INTERNAL: reading buckets `0` to `length - 1` in order gives back the flattened table. -/
theorem flatMap_range_getD (l : List (List α)) :
    (List.range l.length).flatMap (fun i => l.getD i []) = l.flatten := by
  rw [List.flatMap, ← List.flatten]
  congr 1
  apply List.ext_getElem (by simp)
  intro i _ h
  simp [List.getD_eq_getElem?_getD, h]

end Buckets

/-- Every node of the table, bucket by bucket. -/
def entries (t : HashTable K V) : List (K × V) := t.table.flatten

/-- Every node of bucket `i` of `table` hashes to `i` modulo `c`. -/
def Placed (hash : K → Nat) (c : Nat) (table : List (List (K × V))) : Prop :=
  ∀ i n, n ∈ table.getD i [] → hash n.1 % c = i

variable (hash : K → Nat)

omit [DecidableEq K] in
/-- INTERNAL: the inner loop of `resize` keeps the new vector's length and placement, and adds
the old chain's nodes to it. -/
theorem rehashChain_spec {c : Nat} (hc : 0 < c) :
    ∀ (chain : List (K × V)) (nt : List (List (K × V))), nt.length = c → Placed hash c nt →
      (rehashChain hash c nt chain).length = c ∧ Placed hash c (rehashChain hash c nt chain) ∧
        (rehashChain hash c nt chain).flatten ~ chain ++ nt.flatten
  | [], nt, hl, hp => ⟨hl, hp, by simp [rehashChain]⟩
  | n :: rest, nt, hl, hp => by
    have hi : hash n.1 % c < nt.length := by rw [hl]; exact Nat.mod_lt _ hc
    have hp' : Placed hash c (nt.set (hash n.1 % c) (n :: nt.getD (hash n.1 % c) [])) := by
      intro j m hm
      rw [getD_set_nil] at hm
      split at hm
      · rcases List.mem_cons.1 hm with rfl | hm
        · exact (‹_ ∧ _›).1 ▸ rfl
        · exact (‹_ ∧ _›).1 ▸ hp _ m hm
      · exact hp j m hm
    obtain ⟨h1, h2, h3⟩ := rehashChain_spec hc rest _ (by simp [hl]) hp'
    refine ⟨h1, h2, h3.trans ?_⟩
    have := flatten_set_perm hi (n :: nt.getD (hash n.1 % c) [])
    exact ((this.trans (by simpa using (flatten_perm_getD hi).symm)).append_left rest).trans
      List.perm_middle


omit [DecidableEq K] in
/-- INTERNAL: the outer loop of `resize` moves every node of the old vector into the new one. -/
theorem rehashTable_spec {c : Nat} (hc : 0 < c) :
    ∀ (table nt : List (List (K × V))), nt.length = c → Placed hash c nt →
      (table.foldl (rehashChain hash c) nt).length = c ∧
        Placed hash c (table.foldl (rehashChain hash c) nt) ∧
        (table.foldl (rehashChain hash c) nt).flatten ~ table.flatten ++ nt.flatten
  | [], nt, hl, hp => ⟨hl, hp, by simp⟩
  | chain :: rest, nt, hl, hp => by
    obtain ⟨h1, h2, h3⟩ := rehashChain_spec hash hc chain nt hl hp
    obtain ⟨g1, g2, g3⟩ := rehashTable_spec hc rest _ h1 h2
    refine ⟨g1, g2, g3.trans ?_⟩
    simpa [List.append_assoc] using
      ((h3.append_left rest.flatten).trans (by simpa using List.perm_append_comm.append_right nt.flatten))

omit [DecidableEq K] in
/-- INTERNAL: a vector of empty buckets places every node it has. -/
theorem placed_replicate (c : Nat) : Placed hash c (List.replicate c ([] : List (K × V))) :=
  fun i n hn => by
    simp [List.getD_eq_getElem?_getD, List.getElem?_replicate] at hn
    split at hn <;> simp at hn

/-- The representation invariant of `HashTable`: `capacity` buckets, at least one; every node
in the bucket its key hashes to; no key twice; `size` counts the nodes. -/
structure WellFormed (t : HashTable K V) : Prop where
  length_table : t.table.length = t.capacity
  capacity_pos : 0 < t.capacity
  placed : Placed hash t.capacity t.table
  nodup_keys : (keys t.entries).Nodup
  size_eq : t.size = t.entries.length

omit [DecidableEq K] in
/-- `resize` to any positive capacity keeps the invariant and moves every node, none lost or
duplicated. -/
theorem resize_spec {t : HashTable K V} (hw : t.WellFormed hash) {c : Nat} (hc : 0 < c) :
    (t.resize hash c).WellFormed hash ∧ (t.resize hash c).entries ~ t.entries := by
  obtain ⟨h1, h2, h3⟩ := rehashTable_spec hash hc t.table (List.replicate c []) (by simp)
    (placed_replicate hash c)
  have hperm : (t.resize hash c).entries ~ t.entries := by simpa [entries, resize] using h3
  exact ⟨⟨h1, hc, h2, (hperm.map Prod.fst).nodup_iff.2 hw.nodup_keys,
    by rw [hperm.length_eq]; exact hw.size_eq⟩, hperm⟩


/-! ## Where a key lives -/

omit [DecidableEq K] in
/-- INTERNAL: a node of the table sits in some bucket. -/
theorem mem_entries_iff {t : HashTable K V} {x : K × V} : x ∈ t.entries ↔ ∃ i, x ∈ t.bucket i := by
  simp only [entries, List.mem_flatten, bucket, List.getD_eq_getElem?_getD]
  constructor
  · rintro ⟨b, hb, hx⟩
    obtain ⟨i, hi, rfl⟩ := List.getElem_of_mem hb
    exact ⟨i, by simpa [List.getElem?_eq_getElem hi] using hx⟩
  · rintro ⟨i, hx⟩
    cases h : t.table[i]? with
    | none => simp [h] at hx
    | some b => exact ⟨b, List.getElem?_mem h, by simpa [h] using hx⟩

omit [DecidableEq K] in
/-- INTERNAL: a bucket is a part of the flattened table. -/
theorem bucket_sublist (t : HashTable K V) (i : Nat) : t.bucket i <+ t.entries := by
  simp only [bucket, entries, List.getD_eq_getElem?_getD]
  cases h : t.table[i]? with
  | none => exact List.nil_sublist _
  | some b => exact List.sublist_flatten_of_mem (List.getElem?_mem h)

variable {hash}

omit [DecidableEq K] in
/-- INTERNAL: `hash(key)` indexes an existing bucket. -/
theorem WellFormed.bucketIndex_lt {t : HashTable K V} (hw : t.WellFormed hash) (k : K) :
    t.bucketIndex hash k < t.table.length := by
  rw [hw.length_table]; exact Nat.mod_lt _ hw.capacity_pos

omit [DecidableEq K] in
/-- INTERNAL: a node sits in the bucket its key hashes to. -/
theorem WellFormed.mem_bucket {t : HashTable K V} (hw : t.WellFormed hash) {x : K × V}
    (hx : x ∈ t.entries) : x ∈ t.bucket (t.bucketIndex hash x.1) := by
  obtain ⟨i, hi⟩ := mem_entries_iff.1 hx
  rwa [bucketIndex, hw.placed i x hi]

omit [DecidableEq K] in
/-- INTERNAL: no bucket repeats a key. -/
theorem WellFormed.nodup_bucket {t : HashTable K V} (hw : t.WellFormed hash) (i : Nat) :
    (keys (t.bucket i)).Nodup :=
  hw.nodup_keys.sublist ((bucket_sublist t i).map _)

omit [DecidableEq K] in
/-- INTERNAL: a key is in the table exactly when it is in the bucket it hashes to. -/
theorem WellFormed.mem_keys_bucket {t : HashTable K V} (hw : t.WellFormed hash) (k : K) :
    k ∈ keys (t.bucket (t.bucketIndex hash k)) ↔ k ∈ keys t.entries := by
  constructor
  · exact fun h => ((bucket_sublist t _).map Prod.fst).subset h
  · intro h
    obtain ⟨x, hx, rfl⟩ := List.mem_map.1 h
    exact List.mem_map.2 ⟨x, hw.mem_bucket hx, rfl⟩

/-- `get` finds exactly the nodes of the table. -/
theorem WellFormed.get_eq_some_iff {t : HashTable K V} (hw : t.WellFormed hash) {k : K} {v : V} :
    t.get hash k = some v ↔ (k, v) ∈ t.entries := by
  rw [get, chainFind_eq_some_iff (hw.nodup_bucket _)]
  exact ⟨fun h => (bucket_sublist t _).subset h, fun h => hw.mem_bucket h⟩

/-- `get` fails exactly on a key the table does not hold. -/
theorem WellFormed.get_eq_none_iff {t : HashTable K V} (hw : t.WellFormed hash) {k : K} :
    t.get hash k = none ↔ k ∉ keys t.entries := by
  rw [get, chainFind_eq_none_iff, hw.mem_keys_bucket]

omit [DecidableEq K] in
/-- The walk of `evict_expired`, bucket `0` to `capacity - 1`, visits the nodes in table
order. -/
theorem WellFormed.flatMap_range_bucket {t : HashTable K V} (hw : t.WellFormed hash) :
    (List.range t.capacity).flatMap t.bucket = t.entries := by
  rw [← hw.length_table]; exact flatMap_range_getD t.table

/-- `get` is the lookup in any list of the table's nodes. -/
theorem WellFormed.get_eq_lookup [BEq K] [LawfulBEq K] {t : HashTable K V} (hw : t.WellFormed hash) {l : List (K × V)}
    (hp : t.entries ~ l) (k : K) : t.get hash k = l.lookup k := by
  cases h : l.lookup k with
  | none => exact hw.get_eq_none_iff.2 fun hk => (lookup_eq_none_iff l k).1 h ((hp.map _).subset hk)
  | some v =>
    have hnd : (keys l).Nodup := (hp.map Prod.fst).nodup_iff.1 hw.nodup_keys
    exact hw.get_eq_some_iff.2 (hp.symm.subset ((lookup_eq_some_iff hnd).1 h))


/-! ## The operations keep the invariant -/

omit [DecidableEq K] in
/-- INTERNAL: writing a chain of nodes that hash to `i` into bucket `i` keeps the placement. -/
theorem Placed.set {c : Nat} {table : List (List (K × V))} (hp : Placed hash c table) {i : Nat}
    {chain : List (K × V)} (hc : ∀ n ∈ chain, hash n.1 % c = i) :
    Placed hash c (table.set i chain) := by
  intro j n hn
  rw [getD_set_nil] at hn
  split at hn
  · rename_i h; exact h.1 ▸ hc n hn
  · exact hp j n hn

/-- INTERNAL: dropping a key's only node. -/
theorem filter_key_ne_cons_self {k : K} {x : V} {R : List (K × V)} (h : k ∉ keys R) :
    ((k, x) :: R).filter (fun n => n.1 ≠ k) = R := by
  rw [List.filter_cons_of_neg (by simp), filter_key_ne_of_not_mem h]

/-- `insert` keeps the invariant, and its nodes are the old ones with `key`'s replaced by
`(key, value)`. -/
theorem WellFormed.insert {t : HashTable K V} (hw : t.WellFormed hash) (k : K) (v : V) :
    (t.insert hash k v).WellFormed hash ∧
      (t.insert hash k v).entries ~ (k, v) :: t.entries.filter (fun n => n.1 ≠ k) := by
  have grown : ∀ t1, (if 7 * t.capacity ≤ 10 * t.size then t.resize hash (2 * t.capacity) else t) = t1 →
      t1.WellFormed hash ∧ t1.entries ~ t.entries := by
    rintro t1 rfl; split
    · exact resize_spec hash hw (by have := hw.capacity_pos; omega)
    · exact ⟨hw, List.Perm.refl _⟩
  simp only [HashTable.insert]
  generalize hg : (if 7 * t.capacity ≤ 10 * t.size then t.resize hash (2 * t.capacity) else t) = t1
  obtain ⟨hw1, hp1⟩ := grown t1 hg
  have hfilter : t.entries.filter (fun n => n.1 ≠ k) ~ t1.entries.filter (fun n => n.1 ≠ k) := hp1.symm.filter _
  have hi := hw1.bucketIndex_lt k
  have hb := flatten_perm_getD hi
  generalize hI : t1.bucketIndex hash k = i at hi hb
  cases hu : chainUpdate k v (t1.bucket i) with
  | some c' =>
    obtain ⟨pre, old, post, hbk, -, rfl⟩ := chainUpdate_eq_some hu
    generalize hR : pre ++ (post ++ (t1.table.set i []).flatten) = R
    have hold : t1.entries ~ (k, old) :: R := by
      refine hb.trans ?_
      rw [← bucket, hbk, ← hR]; simp
    have hnew : (t1.table.set i (pre ++ (k, v) :: post)).flatten ~ (k, v) :: R :=
      (flatten_set_perm hi _).trans (by rw [← hR]; simp)
    have hnd : (k :: keys R).Nodup := (hold.map Prod.fst).nodup_iff.1 hw1.nodup_keys
    have hkeys : keys (t1.table.set i (pre ++ (k, v) :: post)).flatten ~ keys t1.entries :=
      (hnew.map Prod.fst).trans (hold.map Prod.fst).symm
    refine ⟨⟨by simp [hw1.length_table], hw1.capacity_pos, hw1.placed.set ?_,
      hkeys.nodup_iff.2 hw1.nodup_keys, ?_⟩, ?_⟩
    · intro n hn
      simp only [List.mem_append, List.mem_cons] at hn
      rcases hn with hn | rfl | hn
      · exact hw1.placed i n (by rw [← bucket, hbk]; simp [hn])
      · exact hI
      · exact hw1.placed i n (by rw [← bucket, hbk]; simp [hn])
    · show t1.size = _
      rw [hw1.size_eq, hold.length_eq, entries, hnew.length_eq]; rfl
    · refine hnew.trans (List.Perm.cons _ ?_)
      rw [← filter_key_ne_cons_self (List.nodup_cons.1 hnd).1]
      exact (hfilter.trans (hold.filter _)).symm
  | none =>
    have hk : k ∉ keys t1.entries := by
      rw [← hw1.mem_keys_bucket, hI]; exact (chainUpdate_eq_none_iff k v _).1 hu
    have hnew : (t1.table.set i ((k, v) :: t1.bucket i)).flatten ~ (k, v) :: t1.entries :=
      (flatten_set_perm hi _).trans (hb.symm.cons _)
    refine ⟨⟨by simp [hw1.length_table], hw1.capacity_pos, hw1.placed.set ?_, ?_, ?_⟩, ?_⟩
    · intro n hn
      rcases List.mem_cons.1 hn with rfl | hn
      · exact hI
      · exact hw1.placed i n hn
    · exact (hnew.map Prod.fst).nodup_iff.2 (List.nodup_cons.2 ⟨hk, hw1.nodup_keys⟩)
    · show t1.size + 1 = (t1.table.set i ((k, v) :: t1.bucket i)).flatten.length
      rw [hw1.size_eq, hnew.length_eq]; rfl
    · exact hnew.trans (List.Perm.cons _ (filter_key_ne_of_not_mem hk ▸ hfilter.symm))

/-- `remove` keeps the invariant, drops exactly `key`'s node, and reports whether there was
one. -/
theorem WellFormed.remove {t : HashTable K V} (hw : t.WellFormed hash) (k : K) :
    (t.remove hash k).2.WellFormed hash ∧
      (t.remove hash k).2.entries ~ t.entries.filter (fun n => n.1 ≠ k) ∧
      (t.remove hash k).1 = decide (k ∈ keys t.entries) := by
  have hi := hw.bucketIndex_lt k
  have hb := flatten_perm_getD hi
  simp only [HashTable.remove]
  generalize hI : t.bucketIndex hash k = i at hi hb
  cases hu : chainRemove k (t.bucket i) with
  | none =>
    have hk : k ∉ keys t.entries := by
      rw [← hw.mem_keys_bucket, hI]; exact (chainRemove_eq_none_iff k _).1 hu
    exact ⟨hw, by rw [filter_key_ne_of_not_mem hk], by simp [hk]⟩
  | some c' =>
    obtain ⟨pre, old, post, hbk, -, rfl⟩ := chainRemove_eq_some hu
    generalize hR : pre ++ (post ++ (t.table.set i []).flatten) = R
    have hold : t.entries ~ (k, old) :: R := by
      refine hb.trans ?_
      rw [← bucket, hbk, ← hR]; simp
    have hnew : (t.table.set i (pre ++ post)).flatten ~ R :=
      (flatten_set_perm hi _).trans (by rw [← hR]; simp)
    have hnd : (k :: keys R).Nodup := (hold.map Prod.fst).nodup_iff.1 hw.nodup_keys
    have hfilter : t.entries.filter (fun n => n.1 ≠ k) ~ R := by
      rw [← filter_key_ne_cons_self (List.nodup_cons.1 hnd).1]; exact hold.filter _
    have hw2 : WellFormed hash { t with table := t.table.set i (pre ++ post), size := t.size - 1 } := by
      refine ⟨by simp [hw.length_table], hw.capacity_pos, hw.placed.set ?_,
        (hnew.map Prod.fst).nodup_iff.2 (List.nodup_cons.1 hnd).2, ?_⟩
      · intro n hn
        exact hw.placed i n (by rw [← bucket, hbk]; simp only [List.mem_append, List.mem_cons] at hn ⊢; tauto)
      · show t.size - 1 = (t.table.set i (pre ++ post)).flatten.length
        rw [hw.size_eq, hold.length_eq, hnew.length_eq]; rfl
    have hmem : k ∈ keys t.entries := (hold.map Prod.fst).mem_iff.2 (List.mem_cons_self _ _)
    refine ⟨?_, ?_, by simp [hmem]⟩
    · dsimp only; split
      · exact (resize_spec hash hw2 (by omega)).1
      · exact hw2
    · dsimp only; split
      · exact (resize_spec hash hw2 (by omega)).2.trans (hnew.trans hfilter.symm)
      · exact hnew.trans hfilter.symm

omit [DecidableEq K] in
/-- A fresh table of at least one bucket is well formed. -/
theorem wellFormed_empty {c : Nat} (hc : 0 < c) : (empty c : HashTable K V).WellFormed hash :=
  ⟨by simp [empty], hc, placed_replicate hash c, by simp [entries, empty], by simp [entries, empty]⟩

end HashTable

end BlinkDb
