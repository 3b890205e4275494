import BlinkDb.Model.Client
import BlinkDb.Model.Server
import BlinkDb.Analysis.RespRoundTrip

/-!
# `process_commands` frames every split of a session

A client sends a session of commands, each written by `Client::encode_command` as a RESP-2
array of bulk strings. TCP delivers the bytes in chunks of any size, and each chunk is one
`handle_read`; between them `handle_write` sends parts of the queued responses.
`session_dispatched_in_order` shows that, as long as every read gets past the 10 MiB guard and
every `send` accepts at least one byte or fails with `EAGAIN`, the connection stays open, each
command is executed once, in order, with its name in upper case, the buffer keeps only a proper
prefix of the next command, and the bytes sent followed by the queue are the responses in order.

The commands must fit the two `std::stoi` calls of the framer (`Fits`): fewer than `2^31 - 1`
arguments and no name or argument of `2^31` bytes or more. A longer one gives a length line
`std::stoi` throws on, and the connection is closed when its header arrives, before the guard
could fire (`long_name_closes_connection`). No such command fits the 10 MiB buffer anyway.

The proof follows the code's loops:

* the element loop reads back complete bulk strings (`readBulks_encode`) and asks for more bytes
  on a cut one (`readBulks_cut`), from the header lemma `header_line`;
* the outer loop executes a complete command and starts again at `0` (`processLoop_command`),
  leaves a cut one alone (`processLoop_pending`), and so frames any prefix of the session
  (`processLoop_frames`);
* a run keeps the invariant `Framed`: a read by `Framed.read`, a write by `Framed.write`, a
  whole run by `Framed.run`.
-/

set_option autoImplicit false

namespace BlinkDb

namespace Connection

open Client (encodeBulk encodeCommand)

/-- INTERNAL: a header, a type byte other than `'\r'` and the digits of a number, holds no
`"\r\n"`. -/
theorem not_crlf_infix_header {t : UInt8} (ht : t ≠ 13) (n : Nat) : ¬ crlf <:+: t :: toDecimal n :=
  not_crlf_infix_of_not_mem (by simp [Ne.symm ht, not_mem_toDecimal])

/-- INTERNAL: a header line, a type byte and the digits of a count or a length, ends at the
first `"\r\n"` after it, and `std::stoi` reads the number back from it. -/
theorem header_line {buf : Bytes} {pos n : Nat} {t : UInt8} {r : Bytes} (ht : t ≠ 13)
    (hn : n < 2147483648) (hd : buf.drop pos = t :: (toDecimal n ++ crlf ++ r)) :
    stringFind buf crlf pos = some (pos + ((toDecimal n).length + 1)) ∧
      stoi (substr buf (pos + 1) (pos + ((toDecimal n).length + 1) - pos - 1)) = some (n : Int) := by
  have hline : buf.drop (pos + 1) = toDecimal n ++ (crlf ++ r) :=
    drop_add_of_drop (show buf.drop pos = [t] ++ (toDecimal n ++ (crlf ++ r)) by rw [hd]; simp) rfl
  refine ⟨?_, ?_⟩
  · rw [stringFind_crlf, findCRLF_of_drop (show buf.drop pos = (t :: toDecimal n) ++ crlf ++ r by
      rw [hd]; rfl) (not_crlf_infix_header ht n)]
    rfl
  · rw [show pos + ((toDecimal n).length + 1) - pos - 1 = (toDecimal n).length by omega,
      substr_of_drop hline, stoi_toDecimal hn]

/-- One round of the element loop on a bulk header whose length fits an `int`: the length
check, then the payload and the rest of the loop. -/
theorem readBulks_header {buf : Bytes} {current n count : Nat} {r : Bytes} (hn : n < 2147483648)
    (hd : buf.drop current = 36 :: (toDecimal n ++ crlf ++ r)) :
    readBulks buf (count + 1) current =
      if buf.length < current + (toDecimal n).length + 3 + n + 2 then .ok none
      else (readBulks buf count (current + (toDecimal n).length + 3 + n + 2)).map
        (Option.map fun res => (substr buf (current + (toDecimal n).length + 3) n :: res.1, res.2)) := by
  have hlen := congrArg List.length hd
  simp only [List.length_drop, List.length_cons, List.length_append, crlf, List.length_nil] at hlen
  have hlt : ¬ buf.length ≤ current := by omega
  obtain ⟨hfind, hstoi⟩ := header_line (by decide) hn hd
  rw [readBulks, if_neg (by rw [getD_of_drop hd]; simp [hlt]), hfind]
  simp only []
  rw [hstoi]
  simp only [Int.toNat_ofNat]
  rw [if_neg (by omega), show current + ((toDecimal n).length + 1) + 2 = current + (toDecimal n).length + 3 by omega]

/-- INTERNAL: the bytes of one encoded bulk string. -/
theorem length_encodeBulk (x : Bytes) : (encodeBulk x).length = (toDecimal x.length).length + 3 + x.length + 2 := by
  simp [encodeBulk, crlf]; omega

/-- The element loop reads back bulk strings whose lengths fit an `int`, whatever follows. -/
theorem readBulks_encode {buf : Bytes} :
    ∀ (xs : List Bytes), (∀ x ∈ xs, x.length < 2147483648) → ∀ (current : Nat) (rest : Bytes),
      buf.drop current = (xs.map encodeBulk).flatten ++ rest →
      readBulks buf xs.length current = .ok (some (xs, current + ((xs.map encodeBulk).flatten).length))
  | [], _, current, _, _ => by simp [readBulks]
  | x :: xs, hx, current, rest, hd => by
    have hlen := congrArg List.length hd
    simp only [List.length_drop, List.map_cons, List.flatten_cons, List.length_append, length_encodeBulk] at hlen
    have hhead : buf.drop current =
        36 :: (toDecimal x.length ++ crlf ++ (x ++ crlf ++ ((xs.map encodeBulk).flatten ++ rest))) := by
      rw [hd]; simp [encodeBulk]
    have hval : buf.drop (current + (toDecimal x.length).length + 3) =
        x ++ crlf ++ ((xs.map encodeBulk).flatten ++ rest) :=
      drop_add_of_drop (show buf.drop current = (36 :: toDecimal x.length ++ crlf) ++ _ by
        rw [hhead]; simp) (by simp [crlf]; omega)
    rw [List.length_cons, readBulks_header (hx x (List.mem_cons_self _ _)) hhead,
      if_neg (by omega), readBulks_encode xs (fun y hy => hx y (List.mem_cons_of_mem _ hy)) _ rest
        (drop_add_of_drop hval (by simp [crlf]; omega)), substr_of_drop (by rw [hval, List.append_assoc])]
    simp [Except.map, length_encodeBulk]
    omega

/-- The element loop asks for more bytes when the buffer ends inside the bulk strings. -/
theorem readBulks_cut {buf : Bytes} :
    ∀ (xs : List Bytes), (∀ x ∈ xs, x.length < 2147483648) → ∀ current : Nat,
      buf.drop current <+: (xs.map encodeBulk).flatten →
      (buf.drop current).length < ((xs.map encodeBulk).flatten).length →
      readBulks buf xs.length current = .ok none
  | [], _, _, _, hlt => absurd hlt (by simp)
  | x :: xs, hx, current, hp, hlt => by
    have hxl := hx x (List.mem_cons_self _ _)
    by_cases hshort : (buf.drop current).length < (encodeBulk x).length
    · have hq : buf.drop current <+: 36 :: (toDecimal x.length ++ crlf ++ (x ++ crlf)) := by
        have := List.prefix_of_prefix_length_le hp (List.prefix_append _ _) hshort.le
        simpa [encodeBulk] using this
      rcases RespProtocol.proper_prefix_cases hq (by simpa [encodeBulk] using hshort) with
        h0 | ⟨q, h1, hq'⟩ | ⟨r, h2, -, hr⟩
      · rw [List.length_cons, readBulks, if_pos (.inl (by simpa using h0))]
      · have hne : ¬ buf.length ≤ current := fun h => by simp [List.drop_eq_nil_of_le h] at h1
        rw [List.length_cons, readBulks, if_neg (by rw [getD_of_drop h1]; simp [hne]), stringFind_crlf,
          findCRLF_of_drop_none (by
            rw [h1]
            exact fun hi => not_crlf_infix_append_cr (not_crlf_infix_header (by decide) x.length)
              (hi.trans (List.cons_prefix_cons.2 ⟨rfl, hq'⟩).isInfix))]
      · have hlen := congrArg List.length h2
        simp only [List.length_drop, List.length_cons, List.length_append, crlf, List.length_nil] at hlen
        rw [List.length_cons, readBulks_header hxl h2, if_pos (by simp [crlf] at hr; omega)]
    · obtain ⟨r, hr⟩ := List.prefix_of_prefix_length_le (List.prefix_append _ _) hp (by omega)
      have hlen := congrArg List.length hr
      simp only [List.length_append, length_encodeBulk, List.length_drop] at hlen
      have hnext : buf.drop (current + (toDecimal x.length).length + 3 + x.length + 2) = r :=
        drop_add_of_drop hr.symm (by rw [length_encodeBulk]; omega)
      have hr' : r <+: (xs.map encodeBulk).flatten := by
        rw [← hr] at hp; exact (List.prefix_append_right_inj (encodeBulk x)).1 (by simpa using hp)
      rw [List.length_cons, readBulks_header hxl (show buf.drop current = 36 :: (toDecimal x.length ++ crlf ++ (x ++ crlf ++ r)) by rw [← hr]; simp [encodeBulk]),
        if_neg (by omega),
        readBulks_cut xs (fun y hy => hx y (List.mem_cons_of_mem _ hy)) _ (hnext ▸ hr')
          (by
            rw [hnext]
            simp only [← hr, List.map_cons, List.flatten_cons, List.length_append] at hlt
            omega)]
      rfl

/-! ## The outer loop -/

variable {σ : Type} (exec : Executor σ)

/-- The framer's `std::stoi` calls accept a command: fewer than `2^31 - 1` arguments, and a
name and arguments each shorter than `2^31` bytes. -/
def Fits (cmd : Bytes × List Bytes) : Prop :=
  cmd.2.length + 1 < 2147483648 ∧ ∀ x ∈ cmd.1 :: cmd.2, x.length < 2147483648

instance : DecidablePred Fits := fun _ => inferInstanceAs (Decidable (_ ∧ _))

/-- `Client::encode_command` of each command in turn: the bytes a session sends. -/
def encodeCommands (cmds : List (Bytes × List Bytes)) : Bytes :=
  (cmds.map fun cmd => encodeCommand cmd.1 cmd.2).flatten

/-- What executing the commands in order, each once, as `process_commands` passes them on,
gives: the responses, and the server's final state. -/
def runCommands (srv : σ) : List (Bytes × List Bytes) → List Bytes × σ
  | [] => ([], srv)
  | cmd :: cmds =>
    let r := exec srv (uppercase cmd.1) cmd.2
    let rest := runCommands r.2 cmds
    (r.1 :: rest.1, rest.2)

/-- What the buffer holds between two calls: nothing once every command is in, else a proper
prefix of the next command's encoding. -/
def Pending : List (Bytes × List Bytes) → Bytes → Prop
  | [], buf => buf = []
  | cmd :: _, buf =>
    buf <+: encodeCommand cmd.1 cmd.2 ∧ buf.length < (encodeCommand cmd.1 cmd.2).length

/-- No commands, no bytes. -/
@[simp] theorem encodeCommands_nil : encodeCommands [] = [] := rfl

/-- The bytes of one more command go in front. -/
@[simp] theorem encodeCommands_cons (cmd : Bytes × List Bytes) (cmds : List (Bytes × List Bytes)) :
    encodeCommands (cmd :: cmds) = encodeCommand cmd.1 cmd.2 ++ encodeCommands cmds := rfl

/-- The bytes of two runs of commands, one after the other. -/
theorem encodeCommands_append (a b : List (Bytes × List Bytes)) :
    encodeCommands (a ++ b) = encodeCommands a ++ encodeCommands b := by
  simp [encodeCommands]

/-- Executing two runs of commands one after the other. -/
theorem runCommands_append (srv : σ) (a b : List (Bytes × List Bytes)) :
    runCommands exec srv (a ++ b) =
      ((runCommands exec srv a).1 ++ (runCommands exec (runCommands exec srv a).2 b).1,
        (runCommands exec (runCommands exec srv a).2 b).2) := by
  induction a generalizing srv with
  | nil => rfl
  | cons cmd a ih => simp [runCommands, ih]

/-- INTERNAL: a command's encoding is its array header, then its name and arguments as bulk
strings. -/
theorem encodeCommand_eq (command : Bytes) (args : List Bytes) :
    encodeCommand command args =
      42 :: (toDecimal (args.length + 1) ++ crlf ++ ((command :: args).map encodeBulk).flatten) := by
  simp [encodeCommand]

/-- INTERNAL: `find` answers at the start position or after it. -/
theorem le_of_stringFind {hay needle : Bytes} {pos p : Nat} (h : stringFind hay needle pos = some p) :
    pos ≤ p := by
  unfold stringFind at h
  split at h
  · exact (findFrom_bounds h).1
  · cases h

/-- INTERNAL: the bulk-string loop ends at or after the index it starts from. -/
theorem readBulks_le {buf : Bytes} : ∀ {count current current' : Nat} {args : List Bytes},
    readBulks buf count current = .ok (some (args, current')) → current ≤ current'
  | 0, _, _, _, h => by cases h; exact le_rfl
  | count + 1, current, current', args, h => by
    simp only [readBulks] at h
    split at h
    · cases h
    split at h
    · cases h
    rename_i lenEnd hfind
    have hle := le_of_stringFind hfind
    split at h
    · cases h
    split at h
    · rcases hr : readBulks buf count (lenEnd + 2) with _ | _ | ⟨args', c'⟩ <;> rw [hr] at h <;> cases h
      have := readBulks_le hr
      omega
    split at h
    · cases h
    · rcases hr : readBulks buf count _ with _ | _ | ⟨args', c'⟩ <;> rw [hr] at h <;> cases h
      have := readBulks_le hr
      omega

/-- The loop of `process_commands` reaches its exit within `2 * size + 1 - pos` rounds from scan
position `pos`: a round either moves the scan one byte on, or executes a command, which takes
at least the three bytes of `"*"`, a digit and a line end, and starts again from `0`. So any
budget from there on gives the same result, and the `2 * size + 2` rounds of `processCommands`
are never what stops the loop. -/
theorem processLoop_add (k : Nat) :
    ∀ (fuel pos : Nat) (c : Connection) (srv : σ), 2 * c.inputBuffer.length + 1 ≤ fuel + pos →
      processLoop exec (fuel + k) pos c srv = processLoop exec fuel pos c srv
  | 0, pos, c, srv, h => by
    cases k with
    | zero => rfl
    | succ k =>
      rw [Nat.zero_add]
      simp only [processLoop, if_pos (show c.inputBuffer.length ≤ pos by omega)]
  | fuel + 1, pos, c, srv, h => by
    rw [Nat.add_right_comm, processLoop, processLoop]
    by_cases hL : c.inputBuffer.length ≤ pos
    · rw [if_pos hL, if_pos hL]
    rw [if_neg hL, if_neg hL]
    by_cases h42 : c.inputBuffer.getD pos 0 = 42
    swap
    · rw [if_neg h42, if_neg h42]
      exact processLoop_add k fuel (pos + 1) c srv (by omega)
    rw [if_pos h42, if_pos h42]
    rcases hf : stringFind c.inputBuffer crlf pos with _ | endPos
    · rfl
    dsimp only
    rcases hs : stoi (substr c.inputBuffer (pos + 1) (endPos - pos - 1)) with _ | n
    · rfl
    dsimp only
    split_ifs
    · rfl
    rcases hr : readBulks c.inputBuffer n.toNat (endPos + 2) with _ | _ | ⟨args, current⟩
    · rfl
    · rfl
    dsimp only
    have h₁ := le_of_stringFind hf
    have h₂ := readBulks_le hr
    refine processLoop_add k fuel 0 _ _ ?_
    simp only [dispatch_inputBuffer, List.length_drop]
    omega

/-- `process_commands` with no bound on its rounds: every larger budget than the `2 * size + 2`
rounds of `processCommands` gives its result. -/
theorem processCommands_eq_of_le (c : Connection) (srv : σ) {fuel : Nat}
    (h : 2 * c.inputBuffer.length + 2 ≤ fuel) :
    processLoop exec fuel 0 c srv = processCommands exec c srv := by
  obtain ⟨k, rfl⟩ := Nat.exists_eq_add_of_le h
  exact processLoop_add exec k _ 0 c srv (by omega)

/-- A complete command at the front of the buffer is executed once, its response queued, and
its bytes dropped; the scan starts again at `0`. -/
theorem processLoop_command (fuel : Nat) (c : Connection) (srv : σ) {command : Bytes}
    {args : List Bytes} {rest : Bytes} (hfit : Fits (command, args)) (hc : c.state = .connected)
    (hb : c.inputBuffer = encodeCommand command args ++ rest) :
    processLoop exec (fuel + 1) 0 c srv =
      processLoop exec fuel 0
        { c with inputBuffer := rest,
                 outputQueue := c.outputQueue ++ [(exec srv (uppercase command) args).1] }
        (exec srv (uppercase command) args).2 := by
  have hcount : args.length + 1 < 2147483648 := hfit.1
  have hd : c.inputBuffer.drop 0 = 42 :: (toDecimal (args.length + 1) ++ crlf ++
      (((command :: args).map encodeBulk).flatten ++ rest)) := by
    rw [List.drop_zero, hb, encodeCommand_eq]; simp
  obtain ⟨hfind, hstoi⟩ := header_line (by decide) hcount hd
  have hbulks : c.inputBuffer.drop (0 + ((toDecimal (args.length + 1)).length + 1) + 2) =
      ((command :: args).map encodeBulk).flatten ++ rest :=
    drop_add_of_drop (show c.inputBuffer.drop 0 = (42 :: toDecimal (args.length + 1) ++ crlf) ++ _ by
      rw [hd]; simp) (by simp [crlf])
  rw [processLoop, if_neg (by rw [hb, encodeCommand_eq]; simp), if_pos (getD_of_drop hd), hfind]
  simp only []
  rw [hstoi]
  simp only []
  rw [if_neg (by omega), show ((args.length + 1 : Nat) : Int).toNat = (command :: args).length by simp,
    readBulks_encode (command :: args) hfit.2 _ rest hbulks]
  simp only [dispatch, addResponse, hc, if_true]
  rw [← List.drop_drop, hbulks, List.drop_left]

/-- While the buffer holds a proper prefix of a command's encoding, the loop returns `true`
and changes nothing: no `'*'` yet, no end of the count line yet, or not all the bulk strings. -/
theorem processLoop_pending (fuel : Nat) (c : Connection) (srv : σ) {command : Bytes}
    {args : List Bytes} (hfit : Fits (command, args))
    (hp : c.inputBuffer <+: encodeCommand command args)
    (hlt : c.inputBuffer.length < (encodeCommand command args).length) :
    processLoop exec fuel 0 c srv = (true, c, srv) := by
  cases fuel with
  | zero => rfl
  | succ fuel =>
  rw [encodeCommand_eq] at hp hlt
  rcases RespProtocol.proper_prefix_cases hp (by simpa using hlt) with h0 | ⟨q, h1, hq⟩ | ⟨r, h2, hr, hrl⟩
  · rw [processLoop, if_pos (by simp [h0])]
  · have hd : c.inputBuffer.drop 0 = 42 :: q := by rw [List.drop_zero, h1]
    rw [processLoop, if_neg (by simp [h1]), if_pos (getD_of_drop hd), stringFind_crlf,
      findCRLF_of_drop_none (by
        rw [hd]
        exact fun hi => not_crlf_infix_append_cr (not_crlf_infix_header (by decide) (args.length + 1))
          (hi.trans (List.cons_prefix_cons.2 ⟨rfl, hq⟩).isInfix))]
  · have hd : c.inputBuffer.drop 0 = 42 :: (toDecimal (args.length + 1) ++ crlf ++ r) := by
      rw [List.drop_zero, h2]
    obtain ⟨hfind, hstoi⟩ := header_line (by decide) hfit.1 hd
    have hbulks : c.inputBuffer.drop (0 + ((toDecimal (args.length + 1)).length + 1) + 2) = r :=
      drop_add_of_drop (show c.inputBuffer.drop 0 = (42 :: toDecimal (args.length + 1) ++ crlf) ++ r by
        rw [hd]; simp) (by simp [crlf])
    rw [processLoop, if_neg (by simp [h2]), if_pos (getD_of_drop hd), hfind]
    simp only []
    rw [hstoi]
    simp only []
    rw [if_neg (by omega), show ((args.length + 1 : Nat) : Int).toNat = (command :: args).length by simp,
      readBulks_cut (command :: args) hfit.2 _ (by rwa [hbulks]) (by rw [hbulks]; simpa using hrl)]

/-- From a buffer that is a prefix of the commands' bytes, the loop, with fuel beyond the
buffer's length, executes the complete commands at its front in order, queues their responses,
and keeps the rest, which the next command can still complete. -/
theorem processLoop_frames : ∀ (cmds : List (Bytes × List Bytes)) (fuel : Nat) (c : Connection)
    (srv : σ), (∀ cmd ∈ cmds, Fits cmd) → c.state = .connected →
    c.inputBuffer <+: encodeCommands cmds → c.inputBuffer.length < fuel →
    ∃ j rest, c.inputBuffer = encodeCommands (cmds.take j) ++ rest ∧ Pending (cmds.drop j) rest ∧
      processLoop exec fuel 0 c srv =
        (true, { c with inputBuffer := rest,
                        outputQueue := c.outputQueue ++ (runCommands exec srv (cmds.take j)).1 },
          (runCommands exec srv (cmds.take j)).2)
  | [], fuel, c, srv, _, _, hp, _ => by
    have h0 : c.inputBuffer = [] := List.prefix_nil.1 hp
    refine ⟨0, [], by simp [h0], rfl, ?_⟩
    cases fuel <;> simp [processLoop, runCommands, ← h0]
  | cmd :: cmds, fuel, c, srv, hfits, hc, hp, hfuel => by
    rw [encodeCommands_cons] at hp
    have hfit := hfits cmd (List.mem_cons_self _ _)
    by_cases hshort : c.inputBuffer.length < (encodeCommand cmd.1 cmd.2).length
    · have hpre := List.prefix_of_prefix_length_le hp (List.prefix_append _ _) hshort.le
      refine ⟨0, c.inputBuffer, by simp, ⟨hpre, hshort⟩, ?_⟩
      rw [processLoop_pending exec fuel c srv hfit hpre hshort]
      simp [runCommands]
    · obtain ⟨r, hr⟩ := List.prefix_of_prefix_length_le (List.prefix_append _ _) hp (by omega)
      have hlen := congrArg List.length hr
      have henc : 0 < (encodeCommand cmd.1 cmd.2).length := by simp [encodeCommand]
      rw [List.length_append] at hlen
      obtain ⟨fuel, rfl⟩ : ∃ f, fuel = f + 1 := ⟨fuel - 1, by omega⟩
      have hr' : r <+: encodeCommands cmds := by
        rw [← hr] at hp; exact (List.prefix_append_right_inj _).1 hp
      obtain ⟨j, rest, hbuf, hpend, hloop⟩ := processLoop_frames cmds fuel
        { c with inputBuffer := r, outputQueue := c.outputQueue ++ [(exec srv (uppercase cmd.1) cmd.2).1] }
        (exec srv (uppercase cmd.1) cmd.2).2 (fun x hx => hfits x (List.mem_cons_of_mem _ hx)) hc hr'
        (by simp only; omega)
      refine ⟨j + 1, rest, ?_, hpend, ?_⟩
      · rw [← hr, show r = _ from hbuf]; simp
      · rw [processLoop_command exec fuel c srv hfit hc hr.symm, hloop]
        simp [runCommands]

/-- INTERNAL: the bytes of the commands are a proper prefix of the first one's only when there
is none. -/
theorem eq_nil_of_pending_encodeCommands {cmds : List (Bytes × List Bytes)}
    (h : Pending cmds (encodeCommands cmds)) : cmds = [] := by
  cases cmds with
  | nil => rfl
  | cons cmd rest =>
    have hlt := h.2
    rw [encodeCommands_cons, List.length_append] at hlt
    omega

/-- A buffer that holds whole commands is emptied: each is executed once, in order, and its
response queued. -/
theorem processCommands_session (c : Connection) (srv : σ) {cmds : List (Bytes × List Bytes)}
    (hcmds : ∀ cmd ∈ cmds, Fits cmd) (hc : c.state = .connected) (hb : c.inputBuffer = encodeCommands cmds) :
    processCommands exec c srv =
      (true, { c with inputBuffer := [], outputQueue := c.outputQueue ++ (runCommands exec srv cmds).1 },
        (runCommands exec srv cmds).2) := by
  obtain ⟨j, rest, hbuf, hpend, hloop⟩ :=
    processLoop_frames exec cmds (2 * c.inputBuffer.length + 2) c srv hcmds hc (hb ▸ List.prefix_refl _)
      (by omega)
  have hrest : rest = encodeCommands (cmds.drop j) := by
    rw [hb, ← List.take_append_drop j cmds, encodeCommands_append, List.take_append_drop] at hbuf
    exact (List.append_cancel_left hbuf).symm
  have hdrop := eq_nil_of_pending_encodeCommands (hrest ▸ hpend)
  have htake : cmds.take j = cmds := List.take_of_length_le (List.drop_eq_nil_iff.1 hdrop)
  rw [processCommands, hloop, htake, hrest, hdrop, encodeCommands_nil]

end Connection

namespace ConnWorld

open Connection
open Client (encodeCommand)

variable {σ : Type} (exec : Executor σ)

/-! ## Runs that keep the connection open -/

/-- The outcomes the environment may give, one call at a time: `recv` returns bytes and the
10 MiB guard does not fire; `send` accepts between one byte and the whole front message, or
fails with `EAGAIN`. With nothing queued `handle_write` calls no `send`. -/
def allowed (w : ConnWorld σ) : ConnEvent → Bool
  | .read chunk =>
    !chunk.isEmpty && decide (w.conn.inputBuffer.length + chunk.length ≤ maxInputBufferSize)
  | .write (.sent n) =>
    match w.conn.outputQueue with
    | [] => true
    | message :: _ => decide (1 ≤ n ∧ n ≤ message.length)
  | .write (.error e) => e == .wouldBlock

/-- Every call of the run is `allowed` in the state it meets. -/
def admissible : ConnWorld σ → List ConnEvent → Bool
  | _, [] => true
  | w, e :: es =>
    allowed w e &&
      match w.step exec e with
      | some w' => admissible w' es
      | none => true

/-- The bytes the reads of a run deliver, in order. -/
def received : List ConnEvent → Bytes
  | [] => []
  | .read chunk :: es => chunk ++ received es
  | .write _ :: es => received es

/-- The framing invariant after the bytes `recv` delivered so far: `k` commands were
executed, in order and once each, their bytes left the buffer, and the rest is pending; what
`send` accepted followed by the queue is their responses in order. -/
structure Framed (srv : σ) (cmds : List (Bytes × List Bytes)) (delivered : Bytes) (k : Nat)
    (w : ConnWorld σ) : Prop where
  connected : w.conn.state = .connected
  buffer : delivered = encodeCommands (cmds.take k) ++ w.conn.inputBuffer
  pending : Pending (cmds.drop k) w.conn.inputBuffer
  server : w.srv = (runCommands exec srv (cmds.take k)).2
  responses : w.sent ++ w.conn.outputQueue.flatten = (runCommands exec srv (cmds.take k)).1.flatten

variable {srv : σ} {cmds : List (Bytes × List Bytes)}

/-- A new connection has executed nothing. -/
theorem framed_init : Framed exec srv cmds [] 0 (init srv) where
  connected := rfl
  buffer := rfl
  pending := by
    cases cmds with
    | nil => rfl
    | cons cmd _ => exact ⟨List.nil_prefix, by simp [init, Connection.init, encodeCommand]⟩
  server := rfl
  responses := rfl

/-- A read of more bytes of the session, past the guard, keeps the connection open and frames:
the loop executes the commands the new bytes complete. -/
theorem Framed.read {delivered : Bytes} {k : Nat} {w : ConnWorld σ} {chunk : Bytes}
    (hf : Framed exec srv cmds delivered k w) (hcmds : ∀ cmd ∈ cmds, Fits cmd)
    (hne : chunk ≠ []) (hguard : w.conn.inputBuffer.length + chunk.length ≤ maxInputBufferSize)
    (hpre : delivered ++ chunk <+: encodeCommands cmds) :
    ∃ w' k', w.step exec (.read chunk) = some w' ∧ Framed exec srv cmds (delivered ++ chunk) k' w' := by
  have hsplit : encodeCommands cmds = encodeCommands (cmds.take k) ++ encodeCommands (cmds.drop k) := by
    rw [← encodeCommands_append, List.take_append_drop]
  rw [hf.buffer, hsplit, List.append_assoc] at hpre
  obtain ⟨j, rest, hbuf, hpend, hloop⟩ := processLoop_frames exec (cmds.drop k)
    (2 * (w.conn.inputBuffer ++ chunk).length + 2) { w.conn with inputBuffer := w.conn.inputBuffer ++ chunk }
    w.srv (fun x hx => hcmds x (List.mem_of_mem_drop hx)) hf.connected
    ((List.prefix_append_right_inj _).1 hpre) (by simp only []; omega)
  simp only [] at hbuf hloop
  obtain ⟨b, bs, rfl⟩ := List.exists_cons_of_ne_nil hne
  let ran := runCommands exec w.srv ((cmds.drop k).take j)
  refine ⟨{ w with conn := { w.conn with inputBuffer := rest, outputQueue := w.conn.outputQueue ++ ran.1 },
                   srv := ran.2 }, k + j, ?_, ?_⟩
  · have hread : w.conn.handleRead exec w.srv (.bytes (b :: bs)) =
        (true, { w.conn with inputBuffer := rest, outputQueue := w.conn.outputQueue ++ ran.1 }, ran.2) := by
      simp only [handleRead, hf.connected, ne_eq, not_true_eq_false, if_false]
      rw [if_neg (by omega), processCommands]
      rw [hf.connected] at hloop
      exact hloop
    simp only [step, hread, if_true]
  · have htake : cmds.take (k + j) = cmds.take k ++ (cmds.drop k).take j := List.take_add _ _ _
    refine ⟨hf.connected, ?_, by rwa [← List.drop_drop], ?_, ?_⟩
    · show delivered ++ b :: bs = encodeCommands (cmds.take (k + j)) ++ rest
      rw [hf.buffer, htake, encodeCommands_append, List.append_assoc, List.append_assoc, hbuf]
    · show ran.2 = _
      rw [htake, runCommands_append, ← hf.server]
    · show w.sent ++ (w.conn.outputQueue ++ ran.1).flatten = _
      rw [htake, runCommands_append, List.flatten_append, List.flatten_append, ← List.append_assoc,
        hf.responses, ← hf.server]

/-- With the connection open, an allowed outcome of `send` keeps it open, and what `send`
accepts is what leaves the front of the queue. -/
theorem handleWrite_allowed {c : Connection} {s : σ} {sent : Bytes} {r : SendResult}
    (hc : c.state = .connected) (hr : allowed ⟨c, s, sent⟩ (.write r) = true) :
    ∃ queue, c.handleWrite r = (true, { c with outputQueue := queue }) ∧
      accepted c r ++ queue.flatten = c.outputQueue.flatten := by
  obtain ⟨state, buf, queue⟩ := c
  simp only at hc
  subst hc
  cases queue with
  | nil => exact ⟨[], by cases r <;> rfl, by simp [accepted]⟩
  | cons message rest =>
    cases r with
    | sent n =>
      simp only [allowed, decide_eq_true_eq] at hr
      obtain ⟨n, rfl⟩ : ∃ m, n = m + 1 := ⟨n - 1, by omega⟩
      by_cases hn : n + 1 = message.length
      · refine ⟨rest, ?_, by simp [accepted, ← hn]⟩
        simp only [handleWrite, ne_eq, not_true_eq_false, if_false]
        rw [if_pos hn]
      · exact ⟨message.drop (n + 1) :: rest, by simp [handleWrite, hn],
          by simp [accepted, ← List.append_assoc]⟩
    | error e =>
      simp only [allowed, beq_iff_eq] at hr
      exact ⟨message :: rest, by simp [handleWrite, hr], by simp [accepted]⟩

/-- A call of `handle_write` with an allowed outcome keeps the connection open and the
framing: the bytes `send` accepts go from the queue to the peer, in order. -/
theorem Framed.write {delivered : Bytes} {k : Nat} {w : ConnWorld σ} {r : SendResult}
    (hf : Framed exec srv cmds delivered k w) (hr : allowed w (.write r) = true) :
    ∃ w', w.step exec (.write r) = some w' ∧ Framed exec srv cmds delivered k w' := by
  obtain ⟨queue, hw, hq⟩ := handleWrite_allowed hf.connected hr
  refine ⟨⟨{ w.conn with outputQueue := queue }, w.srv, w.sent ++ accepted w.conn r⟩,
    by simp [step, hw], hf.connected, hf.buffer, hf.pending, hf.server, ?_⟩
  show w.sent ++ accepted w.conn r ++ queue.flatten = _
  rw [List.append_assoc, hq, hf.responses]

/-- The invariant along a whole run of allowed calls whose reads deliver a prefix of the
session: the connection stays open and frames. -/
theorem Framed.run (hcmds : ∀ cmd ∈ cmds, Fits cmd) :
    ∀ (es : List ConnEvent) {delivered : Bytes} {k : Nat} {w : ConnWorld σ},
      Framed exec srv cmds delivered k w → admissible exec w es = true →
      delivered ++ received es <+: encodeCommands cmds →
      ∃ w' k', w.run exec es = some w' ∧ Framed exec srv cmds (delivered ++ received es) k' w'
  | [], _, k, w, hf, _, _ => ⟨w, k, rfl, by simpa [received] using hf⟩
  | .read chunk :: es, delivered, _, w, hf, hadm, hpre => by
    simp only [admissible, allowed, Bool.and_eq_true, Bool.not_eq_true', List.isEmpty_eq_false,
      decide_eq_true_eq] at hadm
    obtain ⟨⟨hne, hguard⟩, hrest⟩ := hadm
    rw [received, ← List.append_assoc] at hpre
    obtain ⟨w₁, k₁, hstep, hf₁⟩ := hf.read exec hcmds hne hguard ((List.prefix_append _ _).trans hpre)
    rw [hstep] at hrest
    obtain ⟨w', k', hrun, hf'⟩ := Framed.run hcmds es hf₁ hrest hpre
    exact ⟨w', k', by rw [ConnWorld.run, hstep]; exact hrun, by rwa [received, ← List.append_assoc]⟩
  | .write r :: es, delivered, k, w, hf, hadm, hpre => by
    simp only [admissible, Bool.and_eq_true] at hadm
    obtain ⟨w₁, hstep, hf₁⟩ := hf.write exec hadm.1
    have hrest := hadm.2
    rw [hstep] at hrest
    exact Framed.run hcmds es hf₁ hrest hpre |>.imp fun w' h => by
      rw [ConnWorld.run, hstep]; exact h

/-- Once every byte of the session is in, every command has been executed and the buffer is
empty. -/
theorem Framed.complete {k : Nat} {w : ConnWorld σ}
    (hf : Framed exec srv cmds (encodeCommands cmds) k w) :
    cmds.take k = cmds ∧ w.conn.inputBuffer = [] := by
  have hbuf : w.conn.inputBuffer = encodeCommands (cmds.drop k) := by
    have h := hf.buffer
    rw [← List.take_append_drop k cmds, encodeCommands_append, List.take_append_drop] at h
    exact (List.append_cancel_left h).symm
  have hdrop := eq_nil_of_pending_encodeCommands (hbuf ▸ hf.pending)
  exact ⟨List.take_of_length_le (List.drop_eq_nil_iff.1 hdrop), by rw [hbuf, hdrop, encodeCommands_nil]⟩

/-- INTERNAL: the calls of a prefix of a run are allowed where the run's are. -/
theorem admissible_take :
    ∀ (es : List ConnEvent) (w : ConnWorld σ) (n : Nat),
      admissible exec w es = true → admissible exec w (es.take n) = true
  | [], _, _, _ => by simp [admissible]
  | _ :: _, _, 0, _ => rfl
  | e :: es, w, n + 1, h => by
    simp only [admissible, List.take_succ_cons, Bool.and_eq_true] at h ⊢
    refine ⟨h.1, ?_⟩
    cases hs : w.step exec e with
    | none => rfl
    | some w' => rw [hs] at h; exact admissible_take es w' n h.2

/-- INTERNAL: the reads of a prefix of a run deliver a prefix of its bytes. -/
theorem received_take : ∀ (es : List ConnEvent) (n : Nat), received (es.take n) <+: received es
  | [], _ => by simp [received]
  | _ :: _, 0 => List.nil_prefix
  | .read chunk :: es, n + 1 => (List.prefix_append_right_inj chunk).2 (received_take es n)
  | .write _ :: es, n + 1 => received_take es n

/-! ## Sessions -/

/-- A session of commands whose counts and lengths `std::stoi` accepts, read in chunks while
the guard does not fire, and interleaved with sends that keep the connection open. At every
point the connection is open and framed; once every byte is in, each command has been executed
once, in order, with its name in upper case, the buffer is empty, and what `send` accepted
followed by the queue is the responses in order. -/
theorem session_dispatched_in_order (srv : σ) (cmds : List (Bytes × List Bytes))
    (events : List ConnEvent) (hcmds : ∀ cmd ∈ cmds, Fits cmd)
    (hadm : admissible exec (init srv) events = true) (hS : received events = encodeCommands cmds) :
    (∀ n, ∃ w k, (init srv).run exec (events.take n) = some w ∧
      Framed exec srv cmds (received (events.take n)) k w) ∧
    ∃ w, (init srv).run exec events = some w ∧ w.srv = (runCommands exec srv cmds).2 ∧
      w.conn.inputBuffer = [] ∧
      w.sent ++ w.conn.outputQueue.flatten = (runCommands exec srv cmds).1.flatten := by
  have hall : ∀ n, ∃ w k, (init srv).run exec (events.take n) = some w ∧
      Framed exec srv cmds (received (events.take n)) k w := fun n => by
    simpa using (framed_init exec).run exec hcmds (events.take n) (admissible_take exec _ _ n hadm)
      (by simpa [hS] using received_take events n)
  refine ⟨hall, ?_⟩
  obtain ⟨w, k, hrun, hf⟩ := hall events.length
  rw [List.take_length, hS] at *
  obtain ⟨htake, hbuf⟩ := hf.complete exec
  exact ⟨w, hrun, by rw [hf.server, htake], hbuf, by rw [hf.responses, htake]⟩

/-- A `get k` and a `del k`, 40 bytes, read in pieces of 7, 25 and 8 bytes, with a send that
would block and the first response sent in two parts between them: every prefix of the run is
framed, both commands run once, in order, and the buffer ends empty with every response sent or
queued. -/
theorem session_dispatched_split_reads :
    let cmds : List (Bytes × List Bytes) := [([103, 101, 116], [[107]]), ([100, 101, 108], [[107]])]
    let exec : Executor Nat := fun n command _ => (command, n + 1)
    let events : List ConnEvent := [.read ((encodeCommands cmds).take 7), .write (.error .wouldBlock),
      .read (((encodeCommands cmds).drop 7).take 25), .write (.sent 2), .write (.sent 1),
      .read ((encodeCommands cmds).drop 32)]
    (∀ cmd ∈ cmds, Fits cmd) ∧ admissible exec (init 0) events = true ∧
      received events = encodeCommands cmds ∧
      ((∀ n, ∃ w k, (init 0).run exec (events.take n) = some w ∧
          Framed exec 0 cmds (received (events.take n)) k w) ∧
        ∃ w, (init 0).run exec events = some w ∧ w.srv = (runCommands exec 0 cmds).2 ∧
          w.conn.inputBuffer = [] ∧
          w.sent ++ w.conn.outputQueue.flatten = (runCommands exec 0 cmds).1.flatten) :=
  ⟨by decide, by decide, by decide,
    session_dispatched_in_order _ 0 _ _ (by decide) (by decide) (by decide)⟩

/-- INTERNAL: a name of `2^31` bytes, for every executor and server state: `std::stoi` rejects
its length line, so the first read of the session, 17 bytes that the guard lets through, makes
`process_commands` return `false` and the server close the connection before the command can
be executed. -/
theorem long_name_read_closes (srv : σ) :
    let cmds : List (Bytes × List Bytes) := [(List.replicate 2147483648 0, [])]
    let events := [ConnEvent.read ((encodeCommands cmds).take 17)]
    admissible exec (init srv) events = true ∧ received events <+: encodeCommands cmds ∧
      (init srv).run exec events = none := by
  have hchunk : (encodeCommands [(List.replicate 2147483648 (0 : UInt8), ([] : List Bytes))]).take 17 = ([42, 49, 13, 10, 36, 50, 49, 52, 55, 52, 56, 51, 54, 52, 56, 13, 10] : Bytes) := by
    simp only [encodeCommands_cons, encodeCommands_nil, encodeCommand, Client.encodeBulk,
      List.length_replicate]
    rfl
  have hloop : (processLoop exec 36 0 ⟨.connected, [] ++ ([42, 49, 13, 10, 36, 50, 49, 52, 55, 52, 56, 51, 54, 52, 56, 13, 10] : Bytes), []⟩ srv).1 = false := by
    rw [processLoop, if_neg (by decide), if_pos (by decide),
      show stringFind ([] ++ ([42, 49, 13, 10, 36, 50, 49, 52, 55, 52, 56, 51, 54, 52, 56, 13, 10] : Bytes)) crlf 0 = some 2 from rfl]
    simp only []
    rw [show stoi (substr ([] ++ ([42, 49, 13, 10, 36, 50, 49, 52, 55, 52, 56, 51, 54, 52, 56, 13, 10] : Bytes)) (0 + 1) (2 - 0 - 1)) = some 1 from rfl]
    simp only []
    rw [if_neg (by decide), show readBulks ([] ++ ([42, 49, 13, 10, 36, 50, 49, 52, 55, 52, 56, 51, 54, 52, 56, 13, 10] : Bytes)) (1 : Int).toNat (2 + 2) = .error () from rfl]
  have hstep : (init srv).step exec (.read [42, 49, 13, 10, 36, 50, 49, 52, 55, 52, 56, 51, 54, 52, 56, 13, 10]) = none := by
    have hread : (Connection.init.handleRead exec srv (.bytes [42, 49, 13, 10, 36, 50, 49, 52, 55, 52, 56, 51, 54, 52, 56, 13, 10])).1 = false := by
      rw [handleRead, if_neg (by decide), if_neg (by decide)]
      · exact hloop
      · exact List.cons_ne_nil _ _
    rw [step, show (init srv).conn = Connection.init from rfl, show (init srv).srv = srv from rfl, hread,
      if_neg Bool.false_ne_true]
  refine ⟨?_, ?_, ?_⟩
  · rw [admissible, hchunk, hstep]
    rfl
  · rw [received, received, List.append_nil]
    exact List.take_prefix _ _
  · rw [ConnWorld.run, hchunk, hstep]
    rfl

/-- The server of part B, with its storage engine fresh, closes the connection on the first
17 bytes of a session whose one command has a name of `2^31` bytes. -/
theorem long_name_closes_connection :
    let cmds : List (Bytes × List Bytes) := [(List.replicate 2147483648 0, [])]
    let events := [ConnEvent.read ((encodeCommands cmds).take 17)]
    let exec := Server.executeCommand (HashTable.ops List.length) 0
    let srv := StorageEngine.init StorageEngine.defaultMaxMemory
    admissible exec (init srv) events = true ∧ received events <+: encodeCommands cmds ∧
      (init srv).run exec events = none :=
  long_name_read_closes _ _

end ConnWorld

end BlinkDb
