import BlinkDb.Model.StorageEngine

/-!
# The reaper thread among the clients

`start_eviction_daemon` (`StorageEngine.h`) starts a thread that calls `evict_expired()` once
a second for as long as `running` holds. `set`, `get` and `del` hold `mtx` for their whole
bodies, so each is one step here. `evict_expired` takes no lock: it reads the clock, walks the
table collecting the keys of expired nodes, and then removes them one by one from the table
and the queue. Its pass is three kinds of steps here: the scan (`Event.scan`), which starts a
pass; the round's `store.remove(key)` (`Event.removeNext`), which ends the pass when no key is
left; and the round's `mem_manager.evict_lru(key)` (`Event.evictNext`). Client calls may fall
between any two of them, also between the two halves of a round.

The scan is one step. In the code the walk itself also races with the clients' writes, so
the model has fewer interleavings than the code, never more.
-/

set_option autoImplicit false

namespace BlinkDb

/-- Where the reaper thread is: between passes; in the batch loop of a pass with the keys it
has still to remove; or between the two halves of the round for `key`, which it has removed from
the table and has still to take out of the queue. -/
inductive Reaper
  | idle
  | removing (keys : List Bytes)
  | evicting (key : Bytes) (keys : List Bytes)
  deriving DecidableEq, Repr

/-- The engine and the reaper thread. -/
structure System (T : Type) where
  engine : StorageEngine T
  reaper : Reaper

/-- A step of one of the threads: a client call, each under `mtx`, or a step of the reaper. -/
inductive Event
  | set (key value : Bytes) (ttl now : Int)
  | get (key : Bytes) (now checked : Int)
  | del (key : Bytes)
  | scan (now : Int)
  | removeNext
  | evictNext

namespace System

variable {T : Type} (ops : TableOps T)

/-- A freshly started engine, its reaper asleep. -/
def init (engine : StorageEngine T) : System T := ⟨engine, .idle⟩

/-- One step; `none` when the reaper is not where the step needs it. -/
def step (sys : System T) : Event → Option (System T)
  | .set key value ttl now => some { sys with engine := sys.engine.set ops key value ttl now }
  | .get key now checked => some { sys with engine := (sys.engine.get ops key now checked).2 }
  | .del key => some { sys with engine := (sys.engine.del ops key).2 }
  | .scan now =>
    match sys.reaper with
    | .idle => some { sys with reaper := .removing (StorageEngine.expiredKeys ops sys.engine.store now) }
    | _ => none
  | .removeNext =>
    match sys.reaper with
    | .removing [] => some { sys with reaper := .idle }
    | .removing (key :: keys) => some ⟨sys.engine.removeEntry ops key, .evicting key keys⟩
    | _ => none
  | .evictNext =>
    match sys.reaper with
    | .evicting key keys => some ⟨sys.engine.evictKey key, .removing keys⟩
    | _ => none

/-- An interleaving of steps; `none` when one of them cannot be taken. -/
def run (sys : System T) : List Event → Option (System T)
  | [] => some sys
  | e :: es => (sys.step ops e).bind fun sys => run sys es

end System

end BlinkDb
