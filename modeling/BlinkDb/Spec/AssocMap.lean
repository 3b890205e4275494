import BlinkDb.Model.HashTable

/-!
# The finite map a table stands for

What `HashTable<K, V>` is for, stated without buckets: a finite map as the list of its pairs,
one per key. `insert` puts the key's pair first and drops its old one, `remove` drops it, and
`get` looks the key up. The order of the pairs means nothing; a table refines the map when its
nodes are the map's pairs in some order (`BlinkDb.Analysis.HashTableRuns`).
-/

set_option autoImplicit false

namespace BlinkDb

/-- A finite map as the list of its pairs, one per key. -/
abbrev AssocMap (K V : Type) := List (K × V)

namespace AssocMap

open HashTable (Call Answer)

variable {K V : Type} [DecidableEq K]

/-- `k` now maps to `v`. -/
def put (m : AssocMap K V) (k : K) (v : V) : AssocMap K V := (k, v) :: m.filter fun p => p.1 ≠ k

/-- `k` maps to nothing. -/
def erase (m : AssocMap K V) (k : K) : AssocMap K V := m.filter fun p => p.1 ≠ k

/-- A call answered by the map: `insert` is `put`, `remove` is `erase` and answers whether the
key was mapped, `get` is the lookup. -/
def call (m : AssocMap K V) : Call K V → Answer V × AssocMap K V
  | .insert k v => (.inserted, m.put k v)
  | .remove k => (.removed (m.lookup k).isSome, m.erase k)
  | .get k => (.got (m.lookup k), m)

/-- A sequence of calls answered by the map. -/
def calls (m : AssocMap K V) : List (Call K V) → List (Answer V) × AssocMap K V
  | [] => ([], m)
  | c :: cs => let r := m.call c; let rest := calls r.2 cs; (r.1 :: rest.1, rest.2)

end AssocMap

end BlinkDb
