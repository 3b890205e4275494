import BlinkDb.Model.Connection

/-!
# `Client` (`client.cpp`)

The command-line client: `encode_command` writes a command as a RESP-2 array of bulk strings,
`execute` sends it, reads the reply with the one `recv` of `receive_data`, and turns it into a
line of text with `decode_response`.

`decode_response` calls `std::stoi` on the first line of a bulk string or an array reply, and
`execute` does not catch what it throws; `.error` is that exception. A length that is negative
but not `-1` becomes a huge `size_t` in `substr`, which then takes the rest of the input.
`send_data` is modelled by its result.

`Client.session` runs `execute` calls against a server that answers each command with one
RESP-2 frame: the frames queue up on the socket, and each `recv` returns as many of the pending
bytes as the transport chooses, up to the size of the client's buffer.
-/

set_option autoImplicit false

namespace BlinkDb

/-- A `Client`: whether `socket_fd_ >= 0`. -/
structure Client where
  connected : Bool
  deriving DecidableEq, Repr

namespace Client

/-- `MAX_BUFFER_SIZE`; `receive_data` asks `recv` for one byte less. -/
def maxBufferSize : Nat := 65536

/-- One argument of `encode_command`: `"$" + std::to_string(s.length()) + "\r\n" + s + "\r\n"`. -/
def encodeBulk (s : Bytes) : Bytes := 36 :: toDecimal s.length ++ crlf ++ s ++ crlf

/-- `encode_command(command, args)`: `"*" + std::to_string(args.size() + 1) + "\r\n"`, then the
command and each argument as a bulk string. -/
def encodeCommand (command : Bytes) (args : List Bytes) : Bytes :=
  42 :: toDecimal (args.length + 1) ++ crlf ++ encodeBulk command ++ (args.map encodeBulk).flatten

/-- `decode_response(resp_data)`: the type byte, the first line after it, and a text per type. -/
def decodeResponse (respData : Bytes) : Except String Bytes :=
  match respData with
  | [] => .ok (ascii "Error: Empty response")
  | type :: data =>
    match stringFind data crlf 0 with
    | none => .ok (ascii "Error: Invalid RESP format")
    | some lineEnd =>
      let firstLine := substr data 0 lineEnd
      if type = 43 then .ok firstLine
      else if type = 45 then .ok (ascii "Error: " ++ firstLine)
      else if type = 58 then .ok firstLine
      else if type = 36 then
        match stoi firstLine with
        | none => .error "stoi"
        | some len =>
          if len = -1 then .ok (ascii "NULL")
          else .ok (substr data (lineEnd + 2) (if len < 0 then data.length else len.toNat))
      else if type = 42 then
        match stoi firstLine with
        | none => .error "stoi"
        | some count =>
          if count = -1 then .ok (ascii "NULL")
          else .ok (ascii "(Array with " ++ toDecimalInt count ++ ascii " elements)")
      else .ok (ascii "Error: Unknown RESP type: " ++ [type])

/-- `receive_data()` with `recv` returning `r`: the bytes read; `""` on an error, and on a
shutdown, which also disconnects. -/
def receiveData (c : Client) (r : RecvResult) : Bytes × Client :=
  if c.connected = false then ([], c)
  else
    match r with
    | .bytes [] => ([], { c with connected := false })
    | .bytes b => (b, c)
    | .error _ => ([], c)

/-- `execute(command, args)`, with `send_data` returning `sent` and the `recv` of
`receive_data` returning `r`. -/
def execute (c : Client) (sent : Bool) (r : RecvResult) : Except String Bytes × Client :=
  if c.connected = false then (.ok (ascii "Error: Not connected to server"), c)
  else if sent = false then (.ok (ascii "Error: Failed to send command to server"), c)
  else
    let received := c.receiveData r
    if received.1.isEmpty then (.ok (ascii "Error: No response from server"), received.2)
    else (decodeResponse received.1, received.2)

/-- A session of `execute` calls, each sent in full. Before the `i`-th `recv`, the server has
appended its reply `frames[i]` to the bytes `pending` on the socket; that `recv` returns the
first `cuts[i]` of them, and never more than the `MAX_BUFFER_SIZE - 1` bytes `receive_data`
asks for. The results of the calls in order. -/
def session (c : Client) (pending : Bytes) : List Bytes → List Nat → List (Except String Bytes)
  | frame :: frames, cut :: cuts =>
    let pending := pending ++ frame
    let cut := min cut (maxBufferSize - 1)
    let r := c.execute true (.bytes (pending.take cut))
    r.1 :: session r.2 (pending.drop cut) frames cuts
  | _, _ => []

end Client

end BlinkDb
