import BlinkDb.Spec.KvMap
import BlinkDb.Model.Resp

/-!
# The key-value protocol the server stands for

What the server of part B is for, stated over the map of `BlinkDb.Spec.KvMap` alone. A client
sends the requests `SET key value`, `GET key` and `DEL key`, and each is answered with a RESP-2
value (spec §4.8):

* a write with `+OK`;
* a read with the value as a bulk string, or the null bulk string when the key is missing or
  its value is empty;
* a delete with `:1` when the key was there and `:0` otherwise.
-/

set_option autoImplicit false

namespace BlinkDb

/-- A request of the key-value protocol. -/
inductive Request
  | set (key value : Bytes)
  | get (key : Bytes)
  | del (key : Bytes)
  deriving DecidableEq, Repr

namespace Request

/-- The command a client sends for the request: its verb and its arguments. -/
def command : Request → Bytes × List Bytes
  | .set key value => (ascii "SET", [key, value])
  | .get key => (ascii "GET", [key])
  | .del key => (ascii "DEL", [key])

end Request

namespace KvMap

/-- The answer to one request, and the map after it. -/
def answer (m : KvMap) : Request → RespValue × KvMap
  | .set k v => (.simpleString (ascii "OK"), m.set k v)
  | .get k =>
    (match m.lookup k with
      | none | some [] => .nullBulkString
      | some v => .bulkString v, m)
  | .del k => (.integer (if (m.lookup k).isSome then 1 else 0), m.erase k)

/-- A sequence of requests: the answers in order and the final map. -/
def serve (m : KvMap) : List Request → List RespValue × KvMap
  | [] => ([], m)
  | req :: reqs =>
    let r := m.answer req
    let rest := serve r.2 reqs
    (r.1 :: rest.1, rest.2)

/-- The wire bytes of the specification's first scenario: `SET k v`, `GET k`, `DEL k`, `GET k`. -/
example : ((serve [] [.set (ascii "k") (ascii "v"), .get (ascii "k"), .del (ascii "k"),
    .get (ascii "k")]).1.map RespProtocol.encode).flatten = ascii "+OK\r\n$1\r\nv\r\n:1\r\n$-1\r\n" := by
  decide

end KvMap

end BlinkDb
