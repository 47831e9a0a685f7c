import PopcornTime.Android.CastHeader
import PopcornTime.Lib.EndMark

namespace PopcornTime.Android

open PopcornTime EndMark

/-!
# Android — the requests that the cast server reads

A connection carries requests one behind the other.  Each round of the session reads up to the end
of a header, an empty line, and pushes back what it has read beyond.  The bytes arrive in reads of
any length, and a read takes what has been pushed back and then waits for the socket once more.  A
request that cannot be served ends the connection.

* `PushbackInputStream.read`, `findHeaderEnd`, `readHead` — what a round reads; `execute`, the round
  with the session it is served with; `rounds`, one after the other.
* `readHead_cases` — what a round takes off the stream.
* `heads_prefix` — the requests that are answered are those of the stream, in their order.
* `rounds_waiting` — all are taken up in turn, if the client waits for its answers.
* `heads_batches` — how many are answered if it does not.
* `rounds_stuck` — when a header without an end is answered again and again.
-/

namespace NanoHTTPD

def BUFSIZE : ℕ := 8192

/-- The stream of a session: what has been pushed back, and what the next reads of the socket find;
    behind that the client has closed it, or the read times out. -/
structure PushbackInputStream where
  pushed : List UInt8
  arriving : List (List UInt8)
  closed : Bool
deriving DecidableEq, Repr

inductive Read
  | bytes (bs : List UInt8) (s : PushbackInputStream)
  | ended
  | timeout
deriving DecidableEq, Repr

namespace PushbackInputStream

/-- `read`: only what has been pushed back can be enough without the socket. -/
def read (s : PushbackInputStream) (len : ℕ) : Read :=
  let copied := s.pushed.take len
  let left := len - copied.length
  let s : PushbackInputStream := { s with pushed := s.pushed.drop len }
  if left = 0 then .bytes copied s
  else
    match s.arriving with
    | chunk :: rest =>
      let more := chunk.drop left
      .bytes (copied ++ chunk.take left) { s with arriving := if more = [] then rest else more :: rest }
    | [] =>
      if s.closed then if copied = [] then .ended else .bytes copied s
      else .timeout

def unread (s : PushbackInputStream) (bs : List UInt8) : PushbackInputStream :=
  { s with pushed := bs ++ s.pushed }

/-- All that can still be read. -/
def stream (s : PushbackInputStream) : List UInt8 := s.pushed ++ s.arriving.flatten

end PushbackInputStream

open PushbackInputStream

/-- The place behind the first empty line, or 0. -/
def findHeaderEnd (buf : List UInt8) : ℕ :=
  match (List.range (buf.length - 3)).find? fun splitbyte =>
    buf[splitbyte]? = some 13 ∧ buf[splitbyte + 1]? = some 10 ∧ buf[splitbyte + 2]? = some 13 ∧
      buf[splitbyte + 3]? = some 10 with
  | some splitbyte => splitbyte + 4
  | none => 0

/-- `while (read > 0)` in `execute`, with the first `rlen` bytes of the buffer; `none` is the
    timeout of a read. -/
def fill : ℕ → List UInt8 → PushbackInputStream → Option (List UInt8 × ℕ × PushbackInputStream)
  | 0, buf, s => some (buf, 0, s)
  | fuel + 1, buf, s =>
    let splitbyte := findHeaderEnd buf
    if 0 < splitbyte then some (buf, splitbyte, s)
    else
      match s.read (BUFSIZE - buf.length) with
      | .timeout => none
      -- the header is taken as it is, without its end
      | .ended => some (buf, 0, s)
      | .bytes bs s => if bs = [] then some (buf, 0, s) else fill fuel (buf ++ bs) s

/-- What `execute` reads: the bytes in the buffer, and where the header ends.  `none` is the
    exception with which it ends the connection. -/
def readHead (s : PushbackInputStream) : Option (List UInt8 × ℕ × PushbackInputStream) :=
  match s.read BUFSIZE with
  | .timeout | .ended => none
  | .bytes bs s =>
    (fill BUFSIZE bs s).map fun (buf, splitbyte, s) => (buf, splitbyte, s.unread (buf.drop splitbyte))

/-- The fields of a session that its next round finds. -/
structure Connection where
  inputStream : PushbackInputStream
  headers : List (String × String)
  queryParameterString : Option (List Char)
deriving DecidableEq, Repr

/-- A request that a round has taken up. -/
structure Handled where
  buf : List UInt8
  splitbyte : ℕ
  session : Except Failure HTTPSession

namespace Handled

def read (r : Handled) : List UInt8 × ℕ := (r.buf, r.splitbyte)

/-- A `ResponseException` is answered as well; the decoder's exception leaves `execute`. -/
def answered (r : Handled) : Bool :=
  match r.session with
  | .error .illegalArgument => false
  | _ => true

end Handled

section Rounds

variable (platform : Platform) (charset : List UInt8 → List Char)

/-- `execute`, up to the session that is served, with what the next round finds.  All the bytes of the
    buffer are read as a text; `charset` is the platform's.  Where the request is not served there
    is no next round: either the answer closes the stream, and the socket with it, or the thread of
    the connection catches the exception and closes both. -/
def execute (c : Connection) : Option (Handled × Option Connection) :=
  match readHead c.inputStream with
  | none => none
  | some (buf, splitbyte, inputStream) =>
    match HTTPSession.execute platform c.headers c.queryParameterString (charset buf) with
    | .ok session => some (⟨buf, splitbyte, .ok session⟩,
        some ⟨inputStream, session.headers, session.queryParameterString⟩)
    | .error failure => some (⟨buf, splitbyte, .error failure⟩, none)

/-- `while (!finalAccept.isClosed())`: the requests that the rounds take up. -/
def rounds : ℕ → Connection → List Handled
  | 0, _ => []
  | n + 1, c =>
    match execute platform charset c with
    | none => []
    | some (r, none) => [r]
    | some (r, some c) => r :: rounds n c

/-- The bytes are a request that is served; the headers of the connection have no part in it. -/
def served (bytes : List UInt8) : Bool :=
  (HTTPSession.execute platform [] none (charset bytes)).isOk

end Rounds

/-- The headers that have been read to their end and are answered. -/
def heads (rs : List Handled) : List (List UInt8) :=
  (rs.takeWhile fun r => 0 < r.splitbyte ∧ r.answered).map fun r => r.buf.take r.splitbyte

/-- The empty line that ends a header. -/
def headerEnd : List UInt8 := [13, 10, 13, 10]

theorem findHeaderEnd_eq (buf : List UInt8) : findHeaderEnd buf = endOf headerEnd buf := by
  have hwindow : (fun splitbyte => decide (buf[splitbyte]? = some 13 ∧
      buf[splitbyte + 1]? = some 10 ∧ buf[splitbyte + 2]? = some 13 ∧
      buf[splitbyte + 3]? = some 10)) = fun i => headerEnd.isPrefixOf (buf.drop i) := by
    funext i
    have hat (j : ℕ) : buf[i + j]? = (buf.drop i)[j]? := List.getElem?_drop.symm
    rw [show buf[i]? = buf[i + 0]? from rfl, hat, hat, hat, hat]
    rw [Bool.eq_iff_iff, decide_eq_true_eq]
    rcases buf.drop i with _ | ⟨a, _ | ⟨b, _ | ⟨c, _ | ⟨d, l⟩⟩⟩⟩ <;>
      simp [headerEnd, List.isPrefixOf, @eq_comm _ (13 : UInt8), @eq_comm _ (10 : UInt8)]
  unfold findHeaderEnd endOf
  rw [hwindow]
  rfl

/-! ### A read -/

/-- The reads of the socket find something, and no more has been pushed back than a buffer holds. -/
structure Fed (s : PushbackInputStream) : Prop where
  nonempty : ∀ chunk ∈ s.arriving, chunk ≠ []
  pushed_le : s.pushed.length ≤ BUFSIZE

variable {s s' : PushbackInputStream} {len : ℕ} {bs buf : List UInt8}

/-- **A read** takes the beginning of the stream, if there is one. -/
theorem read_cases (h : Fed s) (hlen : s.pushed.length ≤ len) :
    (s.read len = .timeout ∧ s.closed = false ∧ s.arriving = [] ∧ s.pushed.length < len) ∨
    (s.read len = .ended ∧ s.closed = true ∧ s.arriving = [] ∧ s.pushed = [] ∧ 0 < len) ∨
    ∃ bs arriving, s.read len = .bytes bs ⟨[], arriving, s.closed⟩ ∧
      bs ++ arriving.flatten = s.stream ∧ bs.length ≤ len ∧ (∀ chunk ∈ arriving, chunk ≠ []) ∧
      s.pushed <+: bs ∧ (bs.length ≤ s.pushed.length →
        len = s.pushed.length ∧ arriving = s.arriving ∨
          s.closed = true ∧ s.arriving = [] ∧ arriving = [] ∧ s.pushed ≠ []) := by
  rw [PushbackInputStream.read, List.take_of_length_le hlen, List.drop_eq_nil_of_le hlen]
  dsimp only
  -- no room beyond what was pushed back: the stream itself is not read
  by_cases hleft : len - s.pushed.length = 0
  · rw [if_pos hleft]
    exact .inr (.inr ⟨s.pushed, s.arriving, rfl, rfl, hlen, h.nonempty, List.prefix_rfl,
      fun _ => .inl ⟨by omega, rfl⟩⟩)
  · rw [if_neg hleft]
    cases harriving : s.arriving with
    | cons chunk rest =>
      -- of what arrives a read takes one chunk at most, and its rest stays
      have hchunk : chunk ≠ [] := h.nonempty chunk (by rw [harriving]; exact List.mem_cons_self)
      have hrest : ∀ c ∈ rest, c ≠ [] := fun c hc =>
        h.nonempty c (by rw [harriving]; exact List.mem_cons_of_mem _ hc)
      refine .inr (.inr ⟨s.pushed ++ chunk.take (len - s.pushed.length), _, rfl, ?_, ?_, ?_,
        List.prefix_append _ _, fun hshort => ?_⟩)
      · rw [stream, harriving, List.flatten_cons, List.append_assoc]
        congr 1
        split_ifs with hmore
        · rw [List.take_of_length_le (List.drop_eq_nil_iff.mp hmore)]
        · rw [List.flatten_cons, ← List.append_assoc, List.take_append_drop]
      · rw [List.length_append, List.length_take]
        omega
      · split_ifs with hmore
        · exact hrest
        · exact List.forall_mem_cons.mpr ⟨hmore, hrest⟩
      · have hpos : 0 < chunk.length := List.length_pos_iff.mpr hchunk
        rw [List.length_append, List.length_take] at hshort
        omega
    | nil =>
      cases hclosed : s.closed with
      | false => exact .inl ⟨rfl, rfl, rfl, by omega⟩
      | true =>
        -- a closed stream ends the read only when nothing was pushed back
        by_cases hpushed : s.pushed = []
        · refine .inr (.inl ⟨?_, rfl, rfl, hpushed, by omega⟩)
          simp [hpushed]
        · refine .inr (.inr ⟨s.pushed, [], ?_, ?_, hlen, List.forall_mem_nil _, List.prefix_rfl,
            fun _ => .inr ⟨rfl, rfl, rfl, hpushed⟩⟩)
          · simp [hpushed]
          · rw [stream, harriving]

/-! ### A round -/

/-- The loop reads on until the header ends, the buffer is full or nothing comes any more. -/
theorem fill_cases {fuel : ℕ} {arriving : List (List UInt8)} (closed : Bool)
    (hfed : ∀ chunk ∈ arriving, chunk ≠ []) (hle : buf.length ≤ BUFSIZE)
    (hfuel : BUFSIZE < fuel + buf.length) :
    (fill fuel buf ⟨[], arriving, closed⟩ = none ∧ closed = false ∧
      endOf headerEnd (buf ++ arriving.flatten) = 0 ∧ (buf ++ arriving.flatten).length < BUFSIZE) ∨
    ∃ buf' arriving', fill fuel buf ⟨[], arriving, closed⟩ =
        some (buf', endOf headerEnd buf', ⟨[], arriving', closed⟩) ∧
      buf' ++ arriving'.flatten = buf ++ arriving.flatten ∧ buf <+: buf' ∧ buf'.length ≤ BUFSIZE ∧
      (∀ chunk ∈ arriving', chunk ≠ []) ∧
      (endOf headerEnd buf' = 0 → buf'.length = BUFSIZE ∨ closed = true ∧ arriving' = []) := by
  -- on the fuel, which is always more than the room that is left in the buffer
  induction fuel generalizing buf arriving with
  | zero => omega
  | succ fuel ih =>
    rw [fill, findHeaderEnd_eq]
    -- no further read once the buffer holds the end of a header
    by_cases hend : 0 < endOf headerEnd buf
    · rw [if_pos hend]
      exact .inr ⟨buf, arriving, rfl, rfl, List.prefix_rfl, hle, hfed, fun h => by omega⟩
    · rw [if_neg hend]
      have hzero : endOf headerEnd buf = 0 := by omega
      have hfed' : Fed ⟨[], arriving, closed⟩ := ⟨hfed, Nat.zero_le _⟩
      rcases read_cases hfed' (Nat.zero_le (BUFSIZE - buf.length)) with
        ⟨hread, hopen, hnil, hroom⟩ | ⟨hread, hclosed, hnil, -, -⟩ |
          ⟨bs, arriving', hread, hstream, hlen, hnonempty, -, hshort⟩
      · rw [hread]
        -- the read waits: nothing has arrived and there is room
        have hroom' : 0 < BUFSIZE - buf.length := hroom
        refine .inl ⟨rfl, hopen, ?_, ?_⟩
        · rw [show arriving = [] from hnil, List.flatten_nil, List.append_nil]
          exact hzero
        · rw [show arriving = [] from hnil, List.flatten_nil, List.append_nil]
          omega
      · rw [hread]
        refine .inr ⟨buf, arriving, by rw [hzero], rfl, List.prefix_rfl, hle, hfed,
          fun _ => .inr ⟨hclosed, hnil⟩⟩
      · rw [hread]
        dsimp only
        -- what was read goes to the buffer, the rest is still to arrive
        have hflatten : bs ++ arriving'.flatten = arriving.flatten := hstream
        by_cases hbs : bs = []
        · rw [if_pos hbs, hzero.symm]
          rw [hbs, List.nil_append] at hflatten
          refine .inr ⟨buf, arriving', rfl, by rw [hflatten], List.prefix_rfl, hle, hnonempty,
            fun _ => ?_⟩
          -- a read of nothing: the buffer is full or the stream is at its end
          rcases hshort (by rw [hbs]) with ⟨hfull, -⟩ | ⟨hclosed, -, hnil, -⟩
          · have hfull' : BUFSIZE - buf.length = 0 := hfull
            exact .inl (by omega)
          · exact .inr ⟨hclosed, hnil⟩
        · rw [if_neg hbs]
          have hpos : 0 < bs.length := List.length_pos_iff.mpr hbs
          have hlonger : (buf ++ bs).length = buf.length + bs.length := List.length_append
          have hnext := ih hnonempty (show (buf ++ bs).length ≤ BUFSIZE by omega) (by omega)
          rw [List.append_assoc, hflatten] at hnext
          rcases hnext with hnone | ⟨buf', arriving'', hfill, heq, hbegins, hrest⟩
          · exact .inl hnone
          · exact .inr ⟨buf', arriving'', hfill, heq, (List.prefix_append buf bs).trans hbegins, hrest⟩

/-- What a round takes off the stream. -/
structure Round (s : PushbackInputStream) (buf : List UInt8) (splitbyte : ℕ)
    (s' : PushbackInputStream) : Prop where
  fed : Fed s'
  closed : s'.closed = s.closed
  splitbyte_eq : splitbyte = endOf headerEnd buf
  length_le : buf.length ≤ BUFSIZE
  pushed_eq : s'.pushed = buf.drop splitbyte
  stream_eq : buf ++ s'.arriving.flatten = s.stream
  stuck : splitbyte = 0 → buf ≠ [] ∧ (buf.length = BUFSIZE ∨ s.closed = true ∧ s'.arriving = [])

/-- **A round** reads a header to its end, or all that there is, or the connection ends. -/
theorem readHead_cases (h : Fed s) :
    (readHead s = none ∧ (s.closed = true ∧ s.stream = [] ∨
      s.closed = false ∧ s.stream.length < BUFSIZE ∧
        (s.arriving = [] ∨ endOf headerEnd s.stream = 0))) ∨
    ∃ buf splitbyte s', readHead s = some (buf, splitbyte, s') ∧ Round s buf splitbyte s' := by
  rw [readHead]
  rcases read_cases h h.pushed_le with ⟨hread, hopen, hnil, hroom⟩ |
    ⟨hread, hclosed, hnil, hpushed, -⟩ |
    ⟨bs, arriving, hread, hstream, hlen, hnonempty, hbegins, hshort⟩
  · rw [hread]
    have hlength : s.stream.length < BUFSIZE := by
      rw [stream, hnil, List.flatten_nil, List.append_nil]
      exact hroom
    exact .inl ⟨rfl, .inr ⟨hopen, hlength, .inl hnil⟩⟩
  · rw [hread]
    have hempty : s.stream = [] := by
      rw [stream, hnil, hpushed]
      rfl
    exact .inl ⟨rfl, .inl ⟨hclosed, hempty⟩⟩
  · rw [hread]
    -- the first read brings something, or the connection ends here
    have hne : bs ≠ [] := by
      rintro rfl
      rcases hshort (Nat.zero_le _) with ⟨hfull, -⟩ | ⟨-, -, -, hpushed⟩
      · have hroom : BUFSIZE ≠ 0 := by decide
        rw [List.prefix_nil.mp hbegins] at hfull
        exact hroom hfull
      · exact hpushed (List.prefix_nil.mp hbegins)
    have hfuel : BUFSIZE < BUFSIZE + bs.length := by
      have hpos := List.length_pos_iff.mpr hne
      omega
    dsimp only
    rcases fill_cases s.closed hnonempty hlen hfuel with
      ⟨hfill, hopen, hend, hlength⟩ | ⟨buf, arriving', hfill, heq, hpre, hle, hnonempty', hstuck⟩
    · rw [hfill]
      rw [hstream] at hend hlength
      exact .inl ⟨rfl, .inr ⟨hopen, hlength, .inr hend⟩⟩
    · rw [hfill]
      -- what lies behind the header goes back to the stream
      have hpushed : ((⟨[], arriving', s.closed⟩ : PushbackInputStream).unread
          (buf.drop (endOf headerEnd buf))).pushed = buf.drop (endOf headerEnd buf) :=
        List.append_nil _
      refine .inr ⟨buf, endOf headerEnd buf, _, rfl, ⟨hnonempty', ?_⟩, rfl, rfl, hle, hpushed,
        heq.trans hstream, fun hzero => ⟨fun hnil => ?_, hstuck hzero⟩⟩
      · rw [hpushed, List.length_drop]
        omega
      · rw [hnil, List.prefix_nil] at hpre
        exact hne hpre

/-! ### The rounds of a connection -/

/-- A round that ends a header has read the next block of the stream. -/
theorem Round.blocks_eq {splitbyte : ℕ} (h : Round s buf splitbyte s') (hpos : 0 < splitbyte) :
    blocks headerEnd s.stream = buf.take splitbyte :: blocks headerEnd s'.stream := by
  have hbegins : buf <+: s.stream := ⟨_, h.stream_eq⟩
  have hle : splitbyte ≤ buf.length := h.splitbyte_eq ▸ endOf_le_length _ _
  have hend : endOf headerEnd s.stream = splitbyte := by
    have hbuf := endOf_of_beginning headerEnd hbegins
    rw [← h.splitbyte_eq] at hbuf
    split_ifs at hbuf with hin
    · exact hbuf.symm
    · omega
  rw [blocks, hend, if_pos hpos, ← h.stream_eq, List.take_append_of_le_length hle,
    List.drop_append_of_le_length hle, stream, h.pushed_eq]

/-! ### The requests that are taken up -/

section Requests

variable {platform : Platform} {charset : List UInt8 → List Char} {c : Connection} {splitbyte : ℕ}
  {n : ℕ}

/-- Whether a request is served does not depend on the headers that the connection has had. -/
theorem isOk_execute (platform : Platform) (charset : List UInt8 → List Char)
    (headers : List (String × String)) (queryParameterString : Option (List Char))
    (bytes : List UInt8) :
    (HTTPSession.execute platform headers queryParameterString (charset bytes)).isOk =
      served platform charset bytes := by
  unfold served
  cases hsession : HTTPSession.execute platform headers queryParameterString (charset bytes) with
  | ok session =>
    obtain ⟨⟨own, hown, -⟩, -⟩ := execute_ok platform hsession [] none
    rw [hown]
    rfl
  | error failure =>
    cases hown : HTTPSession.execute platform [] none (charset bytes) with
    | ok own =>
      obtain ⟨⟨session, hok, -⟩, -⟩ := execute_ok platform hown headers queryParameterString
      rw [hsession] at hok
      cases hok
    | error failure => rfl

theorem rounds_of_none (h : readHead c.inputStream = none) :
    rounds platform charset n c = [] := by
  cases n with
  | zero => rfl
  | succ n => rw [rounds, execute, h]

/-- A request that is served is followed by the rounds of what the connection has become. -/
theorem rounds_of_ok {inputStream : PushbackInputStream} {session : HTTPSession}
    (h : readHead c.inputStream = some (buf, splitbyte, inputStream))
    (hsession : HTTPSession.execute platform c.headers c.queryParameterString (charset buf) =
      .ok session) :
    rounds platform charset (n + 1) c = ⟨buf, splitbyte, .ok session⟩ ::
      rounds platform charset n ⟨inputStream, session.headers, session.queryParameterString⟩ := by
  rw [rounds, execute, h]
  simp only [hsession]

/-- A request that is not served is the last one. -/
theorem rounds_of_error {inputStream : PushbackInputStream} {failure : Failure}
    (h : readHead c.inputStream = some (buf, splitbyte, inputStream))
    (hsession : HTTPSession.execute platform c.headers c.queryParameterString (charset buf) =
      .error failure) :
    rounds platform charset (n + 1) c = [⟨buf, splitbyte, .error failure⟩] := by
  rw [rounds, execute, h]
  simp only [hsession]

/-- **Whatever reads the bytes arrive in**, the headers that are answered are those of the stream,
    whole and in their order. -/
theorem heads_prefix (platform : Platform) (charset : List UInt8 → List Char) (n : ℕ)
    (h : Fed c.inputStream) :
    heads (rounds platform charset n c) <+: blocks headerEnd c.inputStream.stream := by
  induction n generalizing c with
  | zero => exact List.nil_prefix
  | succ n ih =>
    rcases readHead_cases h with ⟨hnone, -⟩ | ⟨buf, splitbyte, s', hsome, hround⟩
    · rw [rounds_of_none hnone]
      exact List.nil_prefix
    · -- the header of the round is the next block, and a round behind it goes on with the rest
      suffices go : ∀ (r : Handled) rest, r.read = (buf, splitbyte) →
          heads rest <+: blocks headerEnd s'.stream →
          heads (r :: rest) <+: blocks headerEnd c.inputStream.stream by
        cases hsession : HTTPSession.execute platform c.headers c.queryParameterString
            (charset buf) with
        | ok session =>
          rw [rounds_of_ok hsome hsession]
          exact go _ _ rfl (ih hround.fed)
        | error failure =>
          rw [rounds_of_error hsome hsession]
          exact go _ _ rfl List.nil_prefix
      rintro r rest hread hrest
      obtain ⟨rfl, rfl⟩ := Prod.mk.inj hread
      rw [heads]
      by_cases htaken : 0 < r.splitbyte ∧ r.answered
      · rw [List.takeWhile_cons_of_pos (by simpa using htaken), List.map_cons,
          hround.blocks_eq htaken.1]
        exact List.cons_prefix_cons.mpr ⟨rfl, hrest⟩
      · rw [List.takeWhile_cons_of_neg (by simpa using htaken)]
        exact List.nil_prefix

end Requests

/-- Bytes that are read one for one. -/
def latin1 (bytes : List UInt8) : List Char := bytes.map fun b => Char.ofNat b.toNat

/-- A platform that agrees with the real one where all bytes are ASCII. -/
def asciiPlatform : Platform := ⟨fun _ => [], List.map Char.toLower, List.map Char.toLower⟩

/-- `GET /a`, `GET /b` and `GET`, each with its empty line. -/
def getA : List UInt8 := [71, 69, 84, 32, 47, 97, 13, 10, 13, 10]

def getB : List UInt8 := [71, 69, 84, 32, 47, 98, 13, 10, 13, 10]

/-- Two requests, the first of which is cut in the middle of its end. -/
theorem heads_prefix_two :
    heads (rounds asciiPlatform latin1 3
      ⟨⟨[], [getA.take 9, getA.drop 9 ++ getB], false⟩, remoteHeaders "127.0.0.1", none⟩) <+:
      blocks headerEnd (getA.take 9 ++ (getA.drop 9 ++ getB ++ [])) :=
  heads_prefix (c := ⟨⟨[], [getA.take 9, getA.drop 9 ++ getB], false⟩,
    remoteHeaders "127.0.0.1", none⟩) asciiPlatform latin1 3 ⟨by decide, by decide⟩

/-! ### A header without an end -/

/-- A buffer without the end of a header that nothing can come behind is pushed back as it is. -/
theorem readHead_stuck {arriving : List (List UInt8)} {closed : Bool} (hne : buf ≠ [])
    (hend : endOf headerEnd buf = 0) (hle : buf.length ≤ BUFSIZE)
    (hstuck : buf.length = BUFSIZE ∨ closed = true ∧ arriving = []) :
    readHead ⟨buf, arriving, closed⟩ = some (buf, 0, ⟨buf, arriving, closed⟩) := by
  have hread : PushbackInputStream.read ⟨buf, arriving, closed⟩ BUFSIZE =
      .bytes buf ⟨[], arriving, closed⟩ := by
    rw [PushbackInputStream.read, List.take_of_length_le hle, List.drop_eq_nil_of_le hle]
    rcases hstuck with hfull | ⟨rfl, rfl⟩
    · rw [if_pos (by omega)]
    · simp [hne]
  have hfill : fill BUFSIZE buf ⟨[], arriving, closed⟩ = some (buf, 0, ⟨[], arriving, closed⟩) := by
    have hfuel : BUFSIZE = 8191 + 1 := rfl
    rw [hfuel, fill, findHeaderEnd_eq, hend, if_neg (lt_irrefl 0)]
    rcases hstuck with hfull | ⟨rfl, rfl⟩
    · rw [hfull, Nat.sub_self]
      rfl
    · by_cases hroom : BUFSIZE - buf.length = 0
      · rw [hroom]
        rfl
      · simp [PushbackInputStream.read, hroom]
  rw [readHead, hread]
  dsimp only
  rw [hfill]
  simp [unread]

theorem Round.again (h : Round s buf 0 s') : readHead s' = some (buf, 0, s') := by
  obtain ⟨hne, hstuck⟩ := h.stuck rfl
  obtain ⟨pushed, arriving, closed⟩ := s'
  have hpushed : pushed = buf := h.pushed_eq
  have hclosed : closed = s.closed := h.closed
  rw [hpushed]
  exact readHead_stuck hne h.splitbyte_eq.symm h.length_le (hclosed ▸ hstuck)

/-- A round that finds no end has read all that the buffer can hold. -/
theorem Round.take_stream (h : Round s buf 0 s') : s.stream.take BUFSIZE = buf := by
  have hwindow : buf <+: s.stream.take BUFSIZE :=
    List.prefix_take_iff.mpr ⟨⟨_, h.stream_eq⟩, h.length_le⟩
  refine (hwindow.eq_of_length ?_).symm
  rcases (h.stuck rfl).2 with hfull | ⟨-, hnil⟩
  · exact le_antisymm hwindow.length_le (by rw [hfull]; exact List.length_take_le _ _)
  · have hall := h.stream_eq
    rw [hnil, List.flatten_nil, List.append_nil] at hall
    rw [← hall, List.take_of_length_le h.length_le]

/-- A round finds no end exactly if there is none in what the buffer can hold, and then the stream
    fills the buffer or has been closed. -/
theorem Round.splitbyte_eq_zero_iff {splitbyte : ℕ} (h : Round s buf splitbyte s') :
    splitbyte = 0 ↔ endOf headerEnd (s.stream.take BUFSIZE) = 0 ∧
      (BUFSIZE ≤ s.stream.length ∨ s.closed = true) := by
  have hbegins : buf <+: s.stream := ⟨_, h.stream_eq⟩
  constructor
  · rintro rfl
    rw [h.take_stream]
    refine ⟨h.splitbyte_eq.symm, ?_⟩
    rcases (h.stuck rfl).2 with hfull | ⟨hclosed, -⟩
    · exact .inl (hfull ▸ hbegins.length_le)
    · exact .inr hclosed
  · rintro ⟨hend, -⟩
    have hwindow : buf <+: s.stream.take BUFSIZE := List.prefix_take_iff.mpr ⟨hbegins, h.length_le⟩
    rw [h.splitbyte_eq, endOf_of_beginning headerEnd hwindow, hend]
    exact ite_self 0

section Stuck

variable {platform : Platform} {charset : List UInt8 → List Char} {c : Connection}

/-- What a round pushes back whole is read by all the rounds behind it, as long as it is served. -/
theorem rounds_again (hread : readHead s = some (buf, 0, s))
    (hserved : served platform charset buf = true) (n : ℕ) (headers : List (String × String))
    (queryParameterString : Option (List Char)) :
    (rounds platform charset n ⟨s, headers, queryParameterString⟩).map Handled.read =
      List.replicate n (buf, 0) := by
  induction n generalizing headers queryParameterString with
  | zero => rfl
  | succ n ih =>
    have hok := (isOk_execute platform charset headers queryParameterString buf).trans hserved
    cases hsession : HTTPSession.execute platform headers queryParameterString (charset buf) with
    | error failure =>
      rw [hsession] at hok
      cases hok
    | ok session =>
      rw [rounds_of_ok hread hsession, List.map_cons, ih, List.replicate_succ]
      rfl

/-- **A header that does not end** in the bytes that a buffer holds, or before the client closes the
    connection, is answered in every round exactly if these bytes are a request that is served. -/
theorem rounds_stuck (platform : Platform) (charset : List UInt8 → List Char)
    (h : Fed c.inputStream) (n : ℕ) :
    (∃ buf, (rounds platform charset (n + 2) c).map Handled.read =
        List.replicate (n + 2) (buf, 0)) ↔
      c.inputStream.stream ≠ [] ∧ endOf headerEnd (c.inputStream.stream.take BUFSIZE) = 0 ∧
        (BUFSIZE ≤ c.inputStream.stream.length ∨ c.inputStream.closed = true) ∧
        served platform charset (c.inputStream.stream.take BUFSIZE) = true := by
  rcases readHead_cases h with ⟨hnone, hwhy⟩ | ⟨buf, splitbyte, s', hsome, hround⟩
  · rw [rounds_of_none hnone]
    apply iff_of_false
    · rintro ⟨buf, hrounds⟩
      exact absurd hrounds (by simp [List.replicate_succ])
    · rintro ⟨hne, -, hstuck, -⟩
      rcases hwhy with ⟨-, hempty⟩ | ⟨hopen, hshort, -⟩
      · exact hne hempty
      · rcases hstuck with hlong | hclosed
        · omega
        · rw [hopen] at hclosed
          exact Bool.noConfusion hclosed
  · have hok := isOk_execute platform charset c.headers c.queryParameterString buf
    constructor
    · rintro ⟨buf', hrounds⟩
      cases hsession : HTTPSession.execute platform c.headers c.queryParameterString
          (charset buf) with
      | error failure =>
        -- the connection has ended behind the first round
        have hlength := congrArg List.length hrounds
        rw [rounds_of_error hsome hsession, List.length_map, List.length_replicate] at hlength
        simp at hlength
      | ok session =>
        rw [rounds_of_ok hsome hsession, List.map_cons, List.replicate_succ, List.cons.injEq] at hrounds
        obtain ⟨rfl, rfl⟩ := Prod.mk.inj hrounds.1
        have hbegins : buf <+: c.inputStream.stream := ⟨_, hround.stream_eq⟩
        obtain ⟨hend, hstuck⟩ := hround.splitbyte_eq_zero_iff.mp rfl
        refine ⟨fun hempty => (hround.stuck rfl).1 (List.prefix_nil.mp (hempty ▸ hbegins)), hend,
          hstuck, ?_⟩
        rw [hround.take_stream, ← hok, hsession]
        rfl
    · rintro ⟨-, hend, hstuck, hserved⟩
      obtain rfl := hround.splitbyte_eq_zero_iff.mpr ⟨hend, hstuck⟩
      rw [hround.take_stream] at hserved
      rw [hserved] at hok
      cases hsession : HTTPSession.execute platform c.headers c.queryParameterString
          (charset buf) with
      | error failure =>
        rw [hsession] at hok
        cases hok
      | ok session =>
        refine ⟨buf, ?_⟩
        rw [rounds_of_ok hsome hsession, List.map_cons, rounds_again hround.again hserved]
        rfl

end Stuck

/-- A client that closes the connection within a header. -/
theorem rounds_stuck_closed :
    (∃ buf, (rounds asciiPlatform latin1 (1 + 2)
        ⟨⟨[], [getA.take 6], true⟩, remoteHeaders "127.0.0.1", none⟩).map Handled.read =
      List.replicate (1 + 2) (buf, 0)) :=
  (rounds_stuck (c := ⟨⟨[], [getA.take 6], true⟩, remoteHeaders "127.0.0.1", none⟩) asciiPlatform
    latin1 ⟨by decide, by decide⟩ 1).mpr
      ⟨by decide, by decide +kernel, .inr rfl, by decide +kernel⟩

/-! ### Clients that wait, and clients that do not -/

/-- A request that arrives in reads of its own. -/
structure Request (reads : List (List UInt8)) : Prop where
  nonempty : ∀ chunk ∈ reads, chunk ≠ []
  isBlock : IsBlock headerEnd reads.flatten
  length_le : reads.flatten.length ≤ BUFSIZE

/-- A read that has room takes the whole of what arrives. -/
theorem read_chunk {pushed chunk : List UInt8} {rest : List (List UInt8)} {closed : Bool}
    (hne : chunk ≠ []) (hle : pushed.length + chunk.length ≤ len) :
    PushbackInputStream.read ⟨pushed, chunk :: rest, closed⟩ len =
      .bytes (pushed ++ chunk) ⟨[], rest, closed⟩ := by
  have hpos : 0 < chunk.length := List.length_pos_iff.mpr hne
  have hpushed : pushed.length ≤ len := by omega
  rw [PushbackInputStream.read, List.take_of_length_le hpushed, List.drop_eq_nil_of_le hpushed]
  dsimp only
  rw [if_neg (by omega), List.take_of_length_le (by omega), List.drop_eq_nil_of_le (by omega),
    if_pos rfl]

/-- What is relied on of the charset: an empty line of the bytes is one of the text, and what is read
    up to it does not depend on what comes behind. -/
structure LineCharset (charset : List UInt8 → List Char) : Prop where
  ends : ∀ head, headerEnd <:+ head → crlf ++ crlf <:+ charset head
  append : ∀ head more, headerEnd <:+ head → charset (head ++ more) = charset head ++ charset more

theorem latin1_lineCharset : LineCharset latin1 where
  ends := by
    rintro _ ⟨text, rfl⟩
    refine ⟨latin1 text, ?_⟩
    rw [latin1, latin1, List.map_append]
    rfl
  append := fun _ _ _ => List.map_append

/-- A read that brings a whole request is enough for a round. -/
theorem readHead_of_read {arriving : List (List UInt8)} {closed : Bool} {request more : List UInt8}
    (h : IsBlock headerEnd request)
    (hread : s.read BUFSIZE = .bytes (request ++ more) ⟨[], arriving, closed⟩) :
    readHead s = some (request ++ more, request.length, ⟨more, arriving, closed⟩) := by
  have hfill : fill BUFSIZE (request ++ more) ⟨[], arriving, closed⟩ =
      some (request ++ more, request.length, ⟨[], arriving, closed⟩) := by
    have hfuel : BUFSIZE = 8191 + 1 := rfl
    rw [hfuel, fill, findHeaderEnd_eq, endOf_append h, if_pos (List.length_pos_iff.mpr h.1)]
  rw [readHead, hread]
  dsimp only
  rw [hfill]
  simp [unread]

/-- A read of what has been pushed back, when nothing comes behind it. -/
theorem read_closed {pushed : List UInt8} (hne : pushed ≠ []) (hlt : pushed.length < len) :
    PushbackInputStream.read ⟨pushed, [], true⟩ len = .bytes pushed ⟨[], [], true⟩ := by
  rw [PushbackInputStream.read, List.take_of_length_le hlt.le, List.drop_eq_nil_of_le hlt.le]
  dsimp only
  rw [if_neg (by omega), if_pos rfl, if_neg hne]

theorem read_open {pushed : List UInt8} (hlt : pushed.length < len) :
    PushbackInputStream.read ⟨pushed, [], false⟩ len = .timeout := by
  rw [PushbackInputStream.read, List.take_of_length_le hlt.le]
  exact if_neg (by omega)

/-- What has arrived and is not answered fits in the buffer: the requests of `queue` are left over
    when those of `batches` arrive, each batch in one read, and a round answers one. -/
def Fits : List (List UInt8) → List (List (List UInt8)) → Prop
  | _, [] => True
  | queue, batch :: batches =>
    (queue ++ batch).flatten.length ≤ BUFSIZE ∧ Fits (queue ++ batch).tail batches

instance : ∀ queue batches, Decidable (Fits queue batches)
  | _, [] => isTrue trivial
  | queue, batch :: batches =>
    haveI := instDecidableFits (queue ++ batch).tail batches
    inferInstanceAs (Decidable (_ ∧ _))

section Batches

variable {platform : Platform} {charset : List UInt8 → List Char}

/-- A header to its end that is a request which is served. -/
def ServedBlock (platform : Platform) (charset : List UInt8 → List Char) (request : List UInt8) :
    Prop :=
  IsBlock headerEnd request ∧ served platform charset request = true

instance (request : List UInt8) : Decidable (ServedBlock platform charset request) :=
  inferInstanceAs (Decidable ((request ≠ [] ∧ endOf headerEnd request = request.length) ∧
    served platform charset request = true))

/-- A round reads a request behind which others have arrived, and serves it. -/
theorem heads_rounds_succ (platform : Platform) {arriving : List (List UInt8)} {closed : Bool}
    {request more : List UInt8} {c : Connection} (n : ℕ) (hcharset : LineCharset charset)
    (h : ServedBlock platform charset request)
    (hread : c.inputStream.read BUFSIZE = .bytes (request ++ more) ⟨[], arriving, closed⟩) :
    ∃ headers queryParameterString, heads (rounds platform charset (n + 1) c) =
      request :: heads (rounds platform charset n
        ⟨⟨more, arriving, closed⟩, headers, queryParameterString⟩) := by
  have hpos : 0 < request.length := List.length_pos_iff.mpr h.1.1
  have hmark := h.1.mark_suffix
  have htext : HTTPSession.execute platform c.headers c.queryParameterString
      (charset (request ++ more)) =
        HTTPSession.execute platform c.headers c.queryParameterString (charset request) := by
    rw [hcharset.append request more hmark, execute_append platform _ _ (hcharset.ends request hmark)]
  have hok := (isOk_execute platform charset c.headers c.queryParameterString request).trans h.2
  cases hsession : HTTPSession.execute platform c.headers c.queryParameterString
      (charset request) with
  | error failure =>
    rw [hsession] at hok
    cases hok
  | ok session =>
    refine ⟨session.headers, session.queryParameterString, ?_⟩
    rw [rounds_of_ok (readHead_of_read h.1 hread) (htext.trans hsession), heads,
      List.takeWhile_cons_of_pos (by simpa [Handled.answered] using hpos), List.map_cons,
      List.take_left, heads]

/-- The requests that are left over when the client has closed are answered one by one. -/
theorem heads_closed (hcharset : LineCharset charset) {queue : List (List UInt8)}
    (hqueue : ∀ request ∈ queue, ServedBlock platform charset request)
    (hroom : queue.flatten.length < BUFSIZE) {n : ℕ} (hn : queue.length ≤ n)
    (headers : List (String × String)) (queryParameterString : Option (List Char)) :
    heads (rounds platform charset n ⟨⟨queue.flatten, [], true⟩, headers, queryParameterString⟩) =
      queue := by
  induction queue generalizing n headers queryParameterString with
  | nil => exact congrArg heads (rounds_of_none rfl)
  | cons request queue ih =>
    obtain ⟨hrequest, hqueue⟩ := List.forall_mem_cons.mp hqueue
    obtain ⟨n, rfl⟩ : ∃ k, n = k + 1 := ⟨n - 1, by rw [List.length_cons] at hn; omega⟩
    rw [List.flatten_cons] at hroom ⊢
    have hne : request ++ queue.flatten ≠ [] := by simp [hrequest.1.1]
    obtain ⟨headers', queryParameterString', hround⟩ := heads_rounds_succ platform
      (c := ⟨⟨request ++ queue.flatten, [], true⟩, headers, queryParameterString⟩) n hcharset
      hrequest (read_closed hne hroom)
    rw [List.length_append] at hroom
    rw [hround, ih hqueue (by omega) (Nat.le_of_succ_le_succ hn)]

/-- As long as the client is there, no round answers what has been left over. -/
theorem heads_open {queue : List (List UInt8)} (hroom : queue.flatten.length < BUFSIZE) (n : ℕ)
    (headers : List (String × String)) (queryParameterString : Option (List Char)) :
    heads (rounds platform charset n ⟨⟨queue.flatten, [], false⟩, headers, queryParameterString⟩) =
      [] := by
  have hnone : readHead ⟨queue.flatten, [], false⟩ = none := by
    rw [readHead, read_open hroom]
  rw [rounds_of_none hnone]
  rfl

/-- The read of a batch gives it behind what was left over. -/
theorem read_batch {queue batch more : List (List UInt8)} {request : List UInt8}
    {arriving : List (List UInt8)} {closed : Bool} (hbatch : batch.flatten ≠ [])
    (hcons : queue ++ batch = request :: more) (hfits : (queue ++ batch).flatten.length ≤ BUFSIZE) :
    PushbackInputStream.read ⟨queue.flatten, batch.flatten :: arriving, closed⟩ BUFSIZE =
      .bytes (request ++ more.flatten) ⟨[], arriving, closed⟩ := by
  rw [← List.flatten_cons, ← hcons, List.flatten_append]
  rw [List.flatten_append, List.length_append] at hfits
  exact read_chunk hbatch hfits

theorem flatten_ne_nil {batch : List (List UInt8)} (hne : batch ≠ [])
    (hbatch : ∀ request ∈ batch, ServedBlock platform charset request) : batch.flatten ≠ [] := by
  obtain ⟨request, hrequest⟩ := List.exists_mem_of_ne_nil batch hne
  exact fun hnil => (hbatch request hrequest).1.1 (List.flatten_eq_nil_iff.mp hnil request hrequest)

/-- One request of the queue is answered for each read, and the rest when the client has closed. -/
theorem heads_queue (hcharset : LineCharset charset) {queue : List (List UInt8)}
    {batches : List (List (List UInt8))} {closed : Bool}
    (hqueue : ∀ request ∈ queue, ServedBlock platform charset request)
    (hbatches : ∀ batch ∈ batches, batch ≠ [] ∧ ∀ request ∈ batch,
      ServedBlock platform charset request)
    (hroom : queue.flatten.length < BUFSIZE) (hfits : Fits queue batches) {n : ℕ}
    (hn : queue.length + batches.flatten.length ≤ n) (headers : List (String × String))
    (queryParameterString : Option (List Char)) :
    heads (rounds platform charset n
        ⟨⟨queue.flatten, batches.map List.flatten, closed⟩, headers, queryParameterString⟩) =
      if closed then queue ++ batches.flatten
      else (queue ++ batches.flatten).take batches.length := by
  induction batches generalizing queue n headers queryParameterString with
  | nil =>
    rw [List.flatten_nil, List.append_nil, List.map_nil, List.length_nil, List.take_zero]
    cases closed with
    | false => exact heads_open hroom n headers queryParameterString
    | true => exact heads_closed hcharset hqueue hroom (by simpa using hn) _ _
  | cons batch batches ih =>
    obtain ⟨⟨hne, hbatch⟩, hbatches⟩ := List.forall_mem_cons.mp hbatches
    obtain ⟨hfits, hrest⟩ := hfits
    obtain ⟨request, more, hcons⟩ : ∃ request more, queue ++ batch = request :: more :=
      List.exists_cons_of_ne_nil (by simp [hne])
    have hall : ∀ r ∈ request :: more, ServedBlock platform charset r := by
      rw [← hcons]
      exact fun r hr => (List.mem_append.mp hr).elim (hqueue r) (hbatch r)
    obtain ⟨hrequest, hmore⟩ := List.forall_mem_cons.mp hall
    have hcount : queue.length + batch.length = more.length + 1 := by
      rw [← List.length_append, hcons, List.length_cons]
    rw [List.flatten_cons, List.length_append] at hn
    obtain ⟨n, rfl⟩ : ∃ k, n = k + 1 := ⟨n - 1, by omega⟩
    -- the first request is answered, and the others are left over
    obtain ⟨headers', queryParameterString', hround⟩ := heads_rounds_succ platform
      (c := ⟨⟨queue.flatten, batch.flatten :: batches.map List.flatten, closed⟩, headers,
        queryParameterString⟩) n hcharset hrequest
      (read_batch (flatten_ne_nil hne hbatch) hcons hfits)
    have hroom' : more.flatten.length < BUFSIZE := by
      have hpos : 0 < request.length := List.length_pos_iff.mpr hrequest.1.1
      rw [hcons, List.flatten_cons, List.length_append] at hfits
      omega
    rw [hcons, List.tail_cons] at hrest
    rw [List.map_cons, hround, ih hmore hbatches hroom' hrest (by omega), List.flatten_cons,
      ← List.append_assoc, hcons, List.length_cons]
    split_ifs
    · rfl
    · rfl

end Batches

/-- **A client that does not wait** and keeps the connection open has as many requests answered as
    there are reads that bring some; the others are answered when it closes.  All its requests are
    such that can be served, and those that wait fit in the buffer. -/
theorem heads_batches (platform : Platform) {charset : List UInt8 → List Char}
    (hcharset : LineCharset charset) (headers : List (String × String))
    (queryParameterString : Option (List Char)) (batches : List (List (List UInt8)))
    (closed : Bool) (h : ∀ batch ∈ batches, batch ≠ [] ∧ ∀ request ∈ batch,
      ServedBlock platform charset request)
    (hfits : Fits [] batches) (n : ℕ) (hn : batches.flatten.length ≤ n) :
    heads (rounds platform charset n
        ⟨⟨[], batches.map List.flatten, closed⟩, headers, queryParameterString⟩) =
      if closed then batches.flatten else batches.flatten.take batches.length :=
  heads_queue hcharset (List.forall_mem_nil _) h (by decide) hfits
    (by rw [List.length_nil]; omega) headers queryParameterString

/-- Of three requests in two reads the last one stays unanswered. -/
theorem heads_batches_two :
    heads (rounds asciiPlatform latin1 3
      ⟨⟨[], [getA ++ (getB ++ []), getA ++ []], false⟩, remoteHeaders "127.0.0.1", none⟩) =
      [getA, getB] :=
  heads_batches asciiPlatform latin1_lineCharset (remoteHeaders "127.0.0.1") none
    [[getA, getB], [getA]] false (by decide +kernel) (by decide) 3 (by decide)

end NanoHTTPD

end PopcornTime.Android
