import BlinkDb.Model.Bytes

/-!
# `HashTable<K, V>`: separate chaining with load-factor resizing

The class of `HashTable.h` keeps a vector of bucket heads, each the head of a singly linked
chain of `(key, value)` nodes, and the two counters `capacity` and `size`. A chain is written
here as the list of its nodes from the head, so pushing a node at the head is `::`.

`std::hash<K>` is a fixed function the code does not define; every operation takes it as the
parameter `hash`, and no result depends on what it computes.

The two thresholds are `double` products: `size >= 0.7 * capacity` before an insert and
`size < 0.2 * capacity` after a remove. For an integer `size` they are the integer
comparisons `10 * size ≥ 7 * capacity` and `5 * size < capacity`: `0.7 * c` and `0.2 * c`
lie at least `1/10` from every integer they are not equal to, and when `0.2 * c` is an
integer `n` the product rounds to exactly `n`, so the rounding of the doubles decides
nothing for any capacity below `2^50`, far beyond any table that fits in memory.
-/

set_option autoImplicit false

namespace BlinkDb

/-- `HashTable<K, V>`: `table` is the bucket vector, each bucket its chain from the head node. -/
structure HashTable (K V : Type) where
  table : List (List (K × V))
  capacity : Nat
  size : Nat
  deriving Repr

namespace HashTable

variable {K V : Type} [DecidableEq K] (hash : K → Nat)

/-- The bucket capacity of a default-constructed table, and of `StorageEngine::store`. -/
def defaultCapacity : Nat := 8

/-- A table of `c` empty buckets. -/
def empty (c : Nat) : HashTable K V := ⟨List.replicate c [], c, 0⟩

/-- `HashTable(size_t initial_capacity)`: throws `std::invalid_argument` below one bucket. -/
def create (initialCapacity : Nat) : Except String (HashTable K V) :=
  if initialCapacity < 1 then .error "Invalid capacity" else .ok (empty initialCapacity)

/-- The chain of bucket `i`, `table[i]`. -/
def bucket (t : HashTable K V) (i : Nat) : List (K × V) := t.table.getD i []

/-- `hash(key)`: the bucket index `std::hash<K>{}(key) % capacity`. -/
def bucketIndex (t : HashTable K V) (key : K) : Nat := hash key % t.capacity

/-! ## The three chain walks -/

/-- The walk of `get`: the value of the first node whose key is `key`. -/
def chainFind (key : K) : List (K × V) → Option V
  | [] => none
  | n :: rest => if n.1 = key then some n.2 else chainFind key rest

/-- The walk of `insert`: overwrite the value of the first node whose key is `key`;
`none` when the chain has no such node. -/
def chainUpdate (key : K) (value : V) : List (K × V) → Option (List (K × V))
  | [] => none
  | n :: rest => if n.1 = key then some ((n.1, value) :: rest) else (chainUpdate key value rest).map (n :: ·)

/-- The walk of `remove`: unlink the first node whose key is `key`; `none` when there is
none. -/
def chainRemove (key : K) : List (K × V) → Option (List (K × V))
  | [] => none
  | n :: rest => if n.1 = key then some rest else (chainRemove key rest).map (n :: ·)

/-! ## Resizing -/

/-- The inner loop of `resize`: walk one old chain from its head and push each node onto the
head of bucket `std::hash<K>{}(key) % new_capacity` of the new vector. -/
def rehashChain (newCapacity : Nat) (newTable : List (List (K × V))) (chain : List (K × V)) :
    List (List (K × V)) :=
  chain.foldl (fun nt n => nt.set (hash n.1 % newCapacity) (n :: nt.getD (hash n.1 % newCapacity) []))
    newTable

/-- `resize(new_capacity)`: rehash the chains of bucket `0` to `capacity - 1`, in that order,
into a fresh vector of `new_capacity` empty buckets. The nodes are moved, so `size` stays. -/
def resize (t : HashTable K V) (newCapacity : Nat) : HashTable K V :=
  { table := t.table.foldl (rehashChain hash newCapacity) (List.replicate newCapacity [])
    capacity := newCapacity
    size := t.size }

/-! ## The public operations -/

/-- `insert(key, value)`: grow to twice the capacity when `size ≥ 0.7 · capacity`; then
overwrite the value of the key's node in its chain, or push a new node at the chain's head
and count it. -/
def insert (t : HashTable K V) (key : K) (value : V) : HashTable K V :=
  let t := if 7 * t.capacity ≤ 10 * t.size then t.resize hash (2 * t.capacity) else t
  let index := t.bucketIndex hash key
  match chainUpdate key value (t.bucket index) with
  | some chain => { t with table := t.table.set index chain }
  | none => { t with table := t.table.set index ((key, value) :: t.bucket index), size := t.size + 1 }

/-- `get(key, value)`: the value of the key's node, which the code copies into its output
parameter before returning `true`; `none` is the `false` return. -/
def get (t : HashTable K V) (key : K) : Option V :=
  chainFind key (t.bucket (t.bucketIndex hash key))

/-- `remove(key)`: unlink the key's node and count it out; then, when `capacity > 8` and
`size < 0.2 · capacity`, shrink to half the capacity. The `Bool` is the return value. -/
def remove (t : HashTable K V) (key : K) : Bool × HashTable K V :=
  let index := t.bucketIndex hash key
  match chainRemove key (t.bucket index) with
  | none => (false, t)
  | some chain =>
    let t := { t with table := t.table.set index chain, size := t.size - 1 }
    (true, if 8 < t.capacity ∧ 5 * t.size < t.capacity then t.resize hash (t.capacity / 2) else t)

/-! ## Calls on a table -/

/-- A call of the public interface, as a program using the table makes it. -/
inductive Call (K V : Type)
  | insert (key : K) (value : V)
  | remove (key : K)
  | get (key : K)
  deriving DecidableEq, Repr

/-- What a call returns: nothing for `insert`, the `bool` of `remove`, and for `get` the value
copied into its output parameter, `none` for a `false` return. -/
inductive Answer (V : Type)
  | inserted
  | removed (found : Bool)
  | got (value : Option V)
  deriving DecidableEq, Repr

/-- One call on the table. -/
def call (t : HashTable K V) : Call K V → Answer V × HashTable K V
  | .insert key value => (.inserted, t.insert hash key value)
  | .remove key => let r := t.remove hash key; (.removed r.1, r.2)
  | .get key => (.got (t.get hash key), t)

/-- A sequence of calls: the answers in order and the table after the last. -/
def calls (t : HashTable K V) : List (Call K V) → List (Answer V) × HashTable K V
  | [] => ([], t)
  | c :: cs => let r := t.call hash c; let rest := calls r.2 cs; (r.1 :: rest.1, rest.2)

end HashTable

end BlinkDb
