import BlinkDb.Model.HashTable

/-!
# `MemoryManager` and `StorageEngine`

The store of part A (`StorageEngine.h`, and `StorageEngine.cpp`, which the repository keeps
under the name `MemoryManager.h`): a `HashTable<std::string, Entry>`, the LRU queue of
`MemoryManager`, and the byte counter `current_memory` with its budget `max_memory`.

Each public operation holds `mtx` for its whole body, so it is one function of the state
here. `evict_expired` takes no lock; the reaper thread that calls it is modelled step by
step in `BlinkDb.Model.Reaper`, from the pieces `expiredKeys`, `removeEntry` and `evictKey` below.

Clock readings are parameters: `system_clock::now()` is a `time_point`, an `int64` count of
nanoseconds. A `std::chrono::seconds` ttl is compared with a difference of time points through
their common type, `int64` nanoseconds, so a ttl of `n` seconds stands for `n * 10^9` reduced to
64 bits (`toInt64`): beyond `±9223372036` s the product wraps. `get` reads the clock twice, once
for the touch and once for the expiry test, and takes both readings. `size_t` counters are
`Nat`.
-/

set_option autoImplicit false

namespace BlinkDb

/-- `std::chrono::seconds::max()`: the ttl that never expires, and `set`'s default. -/
def secondsMax : Int := 9223372036854775807

/-- Nanoseconds in a second, the ratio between `seconds` and `system_clock::duration`. -/
def nanosPerSecond : Int := 1000000000

/-- `StorageEngine::Entry`. -/
structure Entry where
  value : Bytes
  /-- `std::chrono::seconds ttl`, in seconds. -/
  ttl : Int
  /-- `system_clock::time_point last_accessed`, in nanoseconds. -/
  lastAccessed : Int
  deriving Repr, DecidableEq

/-- The `int64` that holds `x` reduced modulo `2^64`: `x` itself when it is in range. Signed
overflow of `long` wraps on the targets the code is built for. -/
def toInt64 (x : Int) : Int := (x + 9223372036854775808) % 18446744073709551616 - 9223372036854775808

/-- The expiry test that `get` and `evict_expired` both write out:
`ttl != seconds::max() && (now - last_accessed) > ttl`. Both sides are `int64` nanoseconds: the
difference of two `time_point`s, and the ttl converted from seconds. -/
def Entry.expiredAt (e : Entry) (now : Int) : Bool :=
  e.ttl != secondsMax && decide (toInt64 (e.ttl * nanosPerSecond) < toInt64 (now - e.lastAccessed))

/-- `MemoryManager`: the LRU queue, front (head) most recently used. -/
structure MemoryManager where
  lruQueue : List Bytes
  deriving Repr, DecidableEq

namespace MemoryManager

/-- `update_lru(key)`: `lru_queue.remove(key)` drops every copy, then `push_front(key)`. -/
def updateLru (m : MemoryManager) (key : Bytes) : MemoryManager :=
  ⟨key :: m.lruQueue.filter (· != key)⟩

/-- `evict_lru()`: pop the back key and return it; return `""` when the queue is empty. -/
def evictLru (m : MemoryManager) : Bytes × MemoryManager :=
  match m.lruQueue.getLast? with
  | some key => (key, ⟨m.lruQueue.dropLast⟩)
  | none => ([], m)

/-- `evict_lru(key)`, the overload with an argument: `lru_queue.remove(key)`. -/
def evictLruKey (m : MemoryManager) (key : Bytes) : MemoryManager :=
  ⟨m.lruQueue.filter (· != key)⟩

end MemoryManager

/-- The calls the engine makes on its `store`: `get`, `insert` and `remove`, and the walk of
`evict_expired` over `get_table()` (`nodes`: bucket `0` to `capacity - 1`, each chain from its
head). The engine is written once over these calls; `HashTable.ops` is the table of the source. -/
structure TableOps (T : Type) where
  get : T → Bytes → Option Entry
  insert : T → Bytes → Entry → T
  remove : T → Bytes → Bool × T
  nodes : T → List (Bytes × Entry)

/-- `HashTable<std::string, Entry>` with hash function `hash`. -/
def HashTable.ops (hash : Bytes → Nat) : TableOps (HashTable Bytes Entry) where
  get t := t.get hash
  insert t := t.insert hash
  remove t := t.remove hash
  nodes t := (List.range t.capacity).flatMap t.bucket

section
variable (hash : Bytes → Nat) (t : HashTable Bytes Entry) (k : Bytes)

/-- The engine's `store.get` is the table's `get`. -/
@[simp] theorem HashTable.ops_get : (HashTable.ops hash).get t k = t.get hash k := rfl
/-- The engine's `store.insert` is the table's `insert`. -/
@[simp] theorem HashTable.ops_insert (e : Entry) :
    (HashTable.ops hash).insert t k e = t.insert hash k e := rfl
/-- The engine's `store.remove` is the table's `remove`. -/
@[simp] theorem HashTable.ops_remove : (HashTable.ops hash).remove t k = t.remove hash k := rfl
/-- The walk of `evict_expired` visits the buckets in order, each chain from its head. -/
@[simp] theorem HashTable.ops_nodes :
    (HashTable.ops hash).nodes t = (List.range t.capacity).flatMap t.bucket := rfl

end

/-- `StorageEngine`: the fields its operations read and write, over a table of type `T`. -/
structure StorageEngine (T : Type) where
  store : T
  memManager : MemoryManager
  currentMemory : Nat
  maxMemory : Nat

namespace StorageEngine

/-- The default budget of `StorageEngine(size_t max_memory = 1024 * 1024 * 1024)`. -/
def defaultMaxMemory : Nat := 1073741824

/-- A freshly constructed engine: an empty table of the default capacity, an empty queue,
nothing counted. -/
def init (maxMemory : Nat) : StorageEngine (HashTable Bytes Entry) :=
  ⟨HashTable.empty HashTable.defaultCapacity, ⟨[]⟩, 0, maxMemory⟩

variable {T : Type} (ops : TableOps T)

/-- The `while (current_memory > max_memory)` loop of `enforce_memory_limits`, run for at
most `fuel` rounds. A round pops the back of the queue with `evict_lru()`, leaves the loop on
an empty key, and otherwise drops the key's entry and its bytes when the key is in the table.
Every round that stays in the loop pops one key, so `lruQueue.length + 1` rounds reach the
loop's exit. -/
def enforceLoop : Nat → StorageEngine T → StorageEngine T
  | 0, s => s
  | fuel + 1, s =>
    if s.maxMemory < s.currentMemory then
      let popped := s.memManager.evictLru
      let s := { s with memManager := popped.2 }
      if popped.1.isEmpty then s
      else
        match ops.get s.store popped.1 with
        | some entry =>
          enforceLoop fuel
            { s with currentMemory := s.currentMemory - (popped.1.length + entry.value.length)
                     store := (ops.remove s.store popped.1).2 }
        | none => enforceLoop fuel s
    else s

/-- `enforce_memory_limits()`. -/
def enforceMemoryLimits (s : StorageEngine T) : StorageEngine T :=
  enforceLoop ops (s.memManager.lruQueue.length + 1) s

/-- `set(key, value, ttl)` at clock reading `now`: uncount the old entry (the bytes of
`key` and its old value, nothing when there is none), write the new entry, count it, touch the
key, enforce the budget. -/
def set (s : StorageEngine T) (key value : Bytes) (ttl now : Int) : StorageEngine T :=
  let oldBytes := ((ops.get s.store key).map fun old => key.length + old.value.length).getD 0
  enforceMemoryLimits ops
    { s with store := ops.insert s.store key ⟨value, ttl, now⟩
             currentMemory := s.currentMemory - oldBytes + (key.length + value.length)
             memManager := s.memManager.updateLru key }

/-- `get(key)`, reading the clock as `now` for the touch and as `checked` for the expiry
test: write the entry back with `last_accessed = now`, then drop it and answer `""` if it is
expired, else touch the key and answer its value. -/
def get (s : StorageEngine T) (key : Bytes) (now checked : Int) : Bytes × StorageEngine T :=
  match ops.get s.store key with
  | none => ([], s)
  | some entry =>
    let entry := { entry with lastAccessed := now }
    let s := { s with store := ops.insert s.store key entry }
    if entry.expiredAt checked then ([], { s with store := (ops.remove s.store key).2 })
    else (entry.value, { s with memManager := s.memManager.updateLru key })

/-- `del(key)`: uncount the entry, remove it from the table and from the queue. -/
def del (s : StorageEngine T) (key : Bytes) : Bool × StorageEngine T :=
  match ops.get s.store key with
  | none => (false, s)
  | some entry =>
    (true, { s with currentMemory := s.currentMemory - (key.length + entry.value.length)
                    store := (ops.remove s.store key).2
                    memManager := s.memManager.evictLruKey key })

/-- The scan of `evict_expired` at clock reading `now`: the keys of the expired nodes, in the
order of the walk. -/
def expiredKeys (t : T) (now : Int) : List Bytes :=
  ((ops.nodes t).filter fun n => n.2.expiredAt now).map Prod.fst

/-- `store.remove(key)`, the first half of a round of the batch loop of `evict_expired`. -/
def removeEntry (s : StorageEngine T) (key : Bytes) : StorageEngine T :=
  { s with store := (ops.remove s.store key).2 }

/-- `mem_manager.evict_lru(key)`, the second half of the round. -/
def evictKey (s : StorageEngine T) (key : Bytes) : StorageEngine T :=
  { s with memManager := s.memManager.evictLruKey key }

/-- One round of the batch loop of `evict_expired`: `store.remove(key)`, then
`mem_manager.evict_lru(key)`. `current_memory` is not touched. -/
def removeKey (s : StorageEngine T) (key : Bytes) : StorageEngine T :=
  (s.removeEntry ops key).evictKey key

/-- `evict_expired()` run on its own at clock reading `now`. -/
def evictExpired (s : StorageEngine T) (now : Int) : StorageEngine T :=
  (expiredKeys ops s.store now).foldl (removeKey ops) s

/-! ## Runs -/

/-- A call of the engine's interface, with the clock readings it makes. -/
inductive Op
  | set (key value : Bytes) (ttl now : Int)
  | get (key : Bytes) (now checked : Int)
  | del (key : Bytes)
  | evictExpired (now : Int)

/-- What a call returns. -/
inductive Reply
  | done
  | value (v : Bytes)
  | deleted (b : Bool)
  deriving DecidableEq, Repr

/-- One call. -/
def step (s : StorageEngine T) : Op → Reply × StorageEngine T
  | .set key value ttl now => (.done, set ops s key value ttl now)
  | .get key now checked => let r := get ops s key now checked; (.value r.1, r.2)
  | .del key => let r := del ops s key; (.deleted r.1, r.2)
  | .evictExpired now => (.done, evictExpired ops s now)

/-- A sequence of calls: the replies in order and the final state. -/
def run (s : StorageEngine T) : List Op → List Reply × StorageEngine T
  | [] => ([], s)
  | op :: ops' =>
    let r := step ops s op
    let rest := run r.2 ops'
    (r.1 :: rest.1, rest.2)

end StorageEngine

end BlinkDb
