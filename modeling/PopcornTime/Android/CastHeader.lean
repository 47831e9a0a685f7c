import Mathlib.Data.List.Induction
import PopcornTime.Android.CastResponse
import PopcornTime.Lib.PercentEncoding
import PopcornTime.Lib.TextLines

namespace PopcornTime.Android

open PopcornTime

/-!
# Android — what the cast server reads in a request

The head of a request is read line by line: the method and the uri, then the lines of the header up
to a blank one.  A connection has one session for all its requests, and its headers are never
emptied.

* `NanoHTTPD.decodeHeader`, `NanoHTTPD.HTTPSession.execute` — from the text of a request to the
  session that it is served with.
* `NanoHTTPD.decodeHeader_append` — what follows the blank line is not read.
* `NanoHTTPD.headers_requests` — the header that a request is served with has for each name the value
  that was supplied last on the connection.
-/

/-- What the code leaves to the platform: the text of bytes that are not UTF-8, and lower case in
    the locale `US` and in the user's. -/
structure Platform where
  malformed : List UInt8 → List Char
  toLowerCaseUS : List Char → List Char
  toLowerCase : List Char → List Char

namespace NanoHTTPD

open SRTFormat (trim)

/-! ### Requests -/

/-- The tokens of a `StringTokenizer`. -/
def tokens (isDelim : Char → Bool) (s : List Char) : List (List Char) :=
  (s.splitOnP isDelim).filter fun token => !token.isEmpty

/-- The characters between which a `StringTokenizer` looks for tokens. -/
def isBlank (c : Char) : Bool := c ∈ [' ', '\t', '\n', '\r', '\x0c']

/-- Why a request is not served. -/
inductive Failure
  /-- a `ResponseException` -/
  | response (status : Status) (message : String)
  /-- an `IllegalArgumentException` of the decoder -/
  | illegalArgument
deriving DecidableEq, Repr

structure HTTPSession where
  uri : List Char
  method : Method
  parms : List (List Char × List Char)
  headers : List (String × String)
  queryParameterString : Option (List Char)
deriving DecidableEq, Repr

def Method.name : Method → String
  | .GET => "GET"
  | .PUT => "PUT"
  | .POST => "POST"
  | .DELETE => "DELETE"
  | .HEAD => "HEAD"
  | .OPTIONS => "OPTIONS"

def Method.lookup (method : List Char) : Option Method :=
  [.GET, .PUT, .POST, .DELETE, .HEAD, .OPTIONS].find? fun m =>
    equalsIgnoreCase m.name (String.ofList method)

variable (platform : Platform)

def decodePercent (str : List Char) : Except Failure (List Char) :=
  match PercentEncoding.decode platform.malformed str with
  | some decoded => .ok decoded
  | none => .error .illegalArgument

/-- One of the parameters of `decodeParms`. -/
def decodeParm (p : List (List Char × List Char)) (e : List Char) :
    Except Failure (List (List Char × List Char)) := do
  let sep := e.idxOf '='
  if sep < e.length then
    let name ← decodePercent platform (e.take sep)
    let value ← decodePercent platform (e.drop (sep + 1))
    return LinkedMap.put (trim name) value p
  else
    let name ← decodePercent platform e
    return LinkedMap.put (trim name) [] p

def decodeParms (parms : List Char) (p : List (List Char × List Char)) :
    Except Failure (List (List Char × List Char)) :=
  (tokens (· == '&') parms).foldlM (decodeParm platform) p

/-- A line of the header, if it has a colon. -/
def headerOf (line : List Char) : Option (String × String) :=
  let p := line.idxOf ':'
  if p < line.length then
    some (String.ofList (platform.toLowerCaseUS (trim (line.take p))),
      String.ofList (trim (line.drop (p + 1))))
  else none

/-- The loop over the lines behind the request line. -/
def readHeaders (headers : List (String × String)) : List (List Char) → List (String × String)
  | [] => headers
  | line :: lines =>
    if trim line = [] then headers
    else
      match headerOf platform line with
      | some (name, value) => readHeaders (LinkedMap.put name value headers) lines
      | none => readHeaders headers lines

/-- What `decodeHeader` puts into the maps it is given. -/
structure Decoded where
  method : Option (List Char)
  uri : Option (List Char)
  parms : List (List Char × List Char)
  headers : List (String × String)
  queryParameterString : Option (List Char)
deriving DecidableEq, Repr

/-- The parameters behind the question mark of a uri. -/
def uriParms (uri : List Char) : Except Failure (List (List Char × List Char)) :=
  let qmi := uri.idxOf '?'
  if qmi < uri.length then decodeParms platform (uri.drop (qmi + 1)) [] else .ok []

/-- `decodeHeader`, on the lines of the text. -/
def decodeHeader (headers : List (String × String)) (queryParameterString : Option (List Char)) :
    List (List Char) → Except Failure Decoded
  -- no line at all: nothing is set, and nothing fails here
  | [] => .ok ⟨none, none, [], headers, queryParameterString⟩
  | inLine :: lines =>
    match tokens isBlank inLine with
    | [] => .error (.response .BAD_REQUEST
        "BAD REQUEST: Syntax error. Usage: GET /example/file.html")
    | [_] => .error (.response .BAD_REQUEST
        "BAD REQUEST: Missing URI. Usage: GET /example/file.html")
    | method :: uri :: version => do
      let qmi := uri.idxOf '?'
      let parms ← uriParms platform uri
      let decoded ← decodePercent platform (uri.take qmi)
      return {
        method := some method
        uri := some decoded
        parms := parms
        -- header lines are read for a request with a version only
        headers := if version ≠ [] then readHeaders platform headers lines else headers
        queryParameterString :=
          if qmi < uri.length then some (uri.drop (qmi + 1)) else queryParameterString }

/-- The session as `execute` hands it to `serve`, from the text that has been read. -/
def HTTPSession.execute (headers : List (String × String))
    (queryParameterString : Option (List Char)) (text : List Char) : Except Failure HTTPSession := do
  let pre ← decodeHeader platform headers queryParameterString (readLines text)
  match pre.method.bind Method.lookup, pre.uri with
  | some method, some uri =>
    return ⟨uri, method, pre.parms, pre.headers, pre.queryParameterString⟩
  | _, _ => .error (.response .BAD_REQUEST "BAD REQUEST: Syntax error.")

/-- The headers of a connection that has had no request. -/
def remoteHeaders (remoteIp : String) : List (String × String) :=
  [("remote-addr", remoteIp), ("http-client-ip", remoteIp)]

/-- The sessions that the requests of a connection are served with, up to the first that is not. -/
def requests (headers : List (String × String)) (queryParameterString : Option (List Char)) :
    List (List Char) → List HTTPSession
  | [] => []
  | text :: texts =>
    match HTTPSession.execute platform headers queryParameterString text with
    | .ok s => s :: requests s.headers s.queryParameterString texts
    | .error _ => []

/-! ### What a text supplies -/

/-- The lines behind the request line that `decodeHeader` goes through. -/
def headerLines (text : List Char) : List (List Char) :=
  match readLines text with
  | [] => []
  | inLine :: lines =>
    if 2 < (tokens isBlank inLine).length then lines.takeWhile fun line => trim line ≠ [] else []

/-- The headers that a text supplies. -/
def supplied (text : List Char) : List (String × String) :=
  (headerLines text).filterMap (headerOf platform)

def putAll (headers : List (String × String)) (more : List (String × String)) :
    List (String × String) :=
  more.foldl (fun headers e => LinkedMap.put e.1 e.2 headers) headers

/-- The last value that is put stays. -/
theorem lookup_putAll (name : String) (headers more : List (String × String)) :
    (putAll headers more).lookup name = (more.reverse.lookup name).or (headers.lookup name) := by
  rw [putAll]
  induction more using List.reverseRecOn with
  | nil => rfl
  | append_singleton more e ih =>
    obtain ⟨key, value⟩ := e
    rw [List.foldl_concat, LinkedMap.lookup_put, ih, List.reverse_concat, LinkedMap.lookup_cons_eq]
    split_ifs
    · rfl
    · rfl

theorem readHeaders_eq (headers : List (String × String)) (lines : List (List Char)) :
    readHeaders platform headers lines =
      putAll headers ((lines.takeWhile fun line => trim line ≠ []).filterMap
        (headerOf platform)) := by
  induction lines generalizing headers with
  | nil => rfl
  | cons line lines ih =>
    rw [readHeaders, List.takeWhile_cons]
    by_cases hblank : trim line = []
    · rw [if_pos hblank, if_neg (by simp [hblank])]
      rfl
    · rw [if_neg hblank, if_pos (by simpa using hblank)]
      cases hheader : headerOf platform line with
      | none => rw [List.filterMap_cons_none hheader, ← ih]
      | some e =>
        rw [List.filterMap_cons_some hheader]
        exact ih _

/-- **A request** is read the same whatever headers the connection has had, and puts its own upon
    them. -/
theorem execute_ok {headers : List (String × String)} {queryParameterString : Option (List Char)}
    {text : List Char} {s : HTTPSession}
    (h : HTTPSession.execute platform headers queryParameterString text = .ok s)
    (headers' : List (String × String)) (queryParameterString' : Option (List Char)) :
    (∃ own, HTTPSession.execute platform headers' queryParameterString' text = .ok own ∧
      own.uri = s.uri ∧ own.method = s.method ∧ own.parms = s.parms) ∧
    s.headers = putAll headers (supplied platform text) := by
  rw [HTTPSession.execute] at h
  rw [HTTPSession.execute, supplied, headerLines]
  cases hlines : readLines text with
  | nil =>
    rw [hlines] at h
    cases h
  | cons inLine lines =>
    rw [hlines, decodeHeader] at h
    rw [decodeHeader]
    -- a request line needs a method and a uri: fewer tokens are a failure
    cases htokens : tokens isBlank inLine with
    | nil => rw [htokens] at h; cases h
    | cons method rest =>
      cases rest with
      | nil => rw [htokens] at h; cases h
      | cons uri version =>
        rw [htokens] at h
        dsimp only at h ⊢
        cases hparms : uriParms platform uri with
        | error e => rw [hparms] at h; cases h
        | ok parms =>
          rw [hparms] at h
          cases huri : decodePercent platform (uri.take (uri.idxOf '?')) with
          | error e => rw [huri] at h; cases h
          | ok decoded =>
            rw [huri] at h
            cases hmethod : Method.lookup method with
            | none => simp [Bind.bind, Except.bind, Pure.pure, Except.pure, hmethod] at h
            | some m =>
              simp only [Bind.bind, Except.bind, Pure.pure, Except.pure, Option.bind_some, hmethod,
                Except.ok.injEq] at h ⊢
              subst h
              refine ⟨⟨_, rfl, rfl, rfl, rfl⟩, ?_⟩
              rw [htokens]
              cases version with
              | nil => rfl
              | cons token version =>
                -- header lines are read only where the request line has a version
                have hlong : 2 < (method :: uri :: token :: version).length := by simp
                rw [if_pos (List.cons_ne_nil token version), if_pos hlong]
                exact readHeaders_eq platform _ _

/-! ### What follows the blank line -/

def crlf : List Char := ['\r', '\n']

/-- A line that has ended stays what it is, whatever follows. -/
theorem readLinesFrom_crlf (line text rest : List Char) :
    readLinesFrom line (text ++ crlf ++ rest) =
      readLinesFrom line (text ++ crlf) ++ readLines rest := by
  induction line, text using readLinesFrom.induct with
  | case1 => rfl
  | case2 line hne => rfl
  | case3 line text ih | case5 line text ih => exact congrArg (line :: ·) ih
  | case4 line text hne ih =>
    have hhead : ∀ more, (text ++ crlf ++ more).head? ≠ some '\n' := by
      intro more h
      cases text with
      | nil => exact absurd (Option.some.inj h) (by decide)
      | cons c text => exact hne text (by rw [Option.some.inj h])
    have hhead' : (text ++ crlf).head? ≠ some '\n' := by
      have := hhead []
      rwa [List.append_nil] at this
    rw [List.cons_append, List.cons_append, readLinesFrom_carriageReturn (hhead rest),
      readLinesFrom_carriageReturn hhead']
    exact congrArg (line :: ·) ih
  | case6 line c text hboth hcr hlf ih =>
    have hc : isLineEnd c = false := by
      simpa [isLineEnd] using ⟨fun h => hlf h, fun h => hcr h⟩
    rw [List.cons_append, List.cons_append, readLinesFrom_cons hc, readLinesFrom_cons hc]
    exact ih

/-- The lines of a head up to its blank line, and what follows. -/
theorem exists_readLines_head {head : List Char} (h : crlf ++ crlf <:+ head) :
    ∃ lines, ∀ more, readLines (head ++ more) = lines ++ [] :: readLines more := by
  obtain ⟨text, rfl⟩ := h
  refine ⟨readLines (text ++ crlf), fun more => ?_⟩
  rw [← List.append_assoc, List.append_assoc, readLines, readLinesFrom_crlf]
  rfl

theorem readHeaders_append (headers : List (String × String)) (lines more : List (List Char)) :
    readHeaders platform headers (lines ++ [] :: more) = readHeaders platform headers lines := by
  rw [readHeaders_eq, readHeaders_eq]
  congr 2
  induction lines with
  | nil => rfl
  | cons line lines ih => rw [List.cons_append, List.takeWhile_cons, List.takeWhile_cons, ih]

/-- **The blank line.**  What follows a head is not read. -/
theorem decodeHeader_append (headers : List (String × String))
    (queryParameterString : Option (List Char)) (lines more : List (List Char)) :
    decodeHeader platform headers queryParameterString (lines ++ [] :: more) =
      decodeHeader platform headers queryParameterString (lines ++ [[]]) := by
  cases lines with
  | nil => rfl
  | cons inLine lines =>
    simp only [List.cons_append, decodeHeader, readHeaders_append]

theorem execute_append (headers : List (String × String)) (queryParameterString : Option (List Char))
    {head : List Char} (h : crlf ++ crlf <:+ head) (more : List Char) :
    HTTPSession.execute platform headers queryParameterString (head ++ more) =
      HTTPSession.execute platform headers queryParameterString head := by
  obtain ⟨lines, hlines⟩ := exists_readLines_head h
  have hhead : readLines head = lines ++ [[]] := by
    have := hlines []
    rwa [List.append_nil] at this
  rw [HTTPSession.execute, HTTPSession.execute, hlines, hhead, decodeHeader_append]

/-! ### All requests of a connection -/

/-- **The headers of a connection.**  A request is read up to the blank line behind its head.  Its
    uri, its method and its parameters are its own; each of its headers has the value that was
    supplied last under its name, by this request or by one before it. -/
theorem headers_requests {headers : List (String × String)}
    {queryParameterString : Option (List Char)} {texts : List (List Char × List Char)}
    (hends : ∀ t ∈ texts, crlf ++ crlf <:+ t.1) {i : ℕ} {s : HTTPSession}
    (h : (requests platform headers queryParameterString (texts.map fun t => t.1 ++ t.2))[i]? =
      some s) :
    (∃ t own, texts[i]? = some t ∧ HTTPSession.execute platform headers none t.1 = .ok own ∧
      own.uri = s.uri ∧ own.method = s.method ∧ own.parms = s.parms) ∧
    ∀ name, s.headers.lookup name =
      (((texts.take (i + 1)).flatMap fun t => supplied platform t.1).reverse.lookup name).or
        (headers.lookup name) := by
  -- for any headers before: the map is kept from one request to the next
  suffices go : ∀ before : List (String × String), (requests platform before queryParameterString
      (texts.map fun t => t.1 ++ t.2))[i]? = some s →
      (∃ t own, texts[i]? = some t ∧ HTTPSession.execute platform headers none t.1 = .ok own ∧
        own.uri = s.uri ∧ own.method = s.method ∧ own.parms = s.parms) ∧
      s.headers = putAll before ((texts.take (i + 1)).flatMap fun t => supplied platform t.1) by
    obtain ⟨hown, hheaders⟩ := go headers h
    exact ⟨hown, fun name => by rw [hheaders, lookup_putAll]⟩
  clear h
  induction texts generalizing i queryParameterString with
  | nil =>
    intro before h
    cases h
  | cons t texts ih =>
    intro before h
    -- what follows the blank line is not read as a header
    have hends' := List.forall_mem_cons.mp hends
    rw [List.map_cons, requests, execute_append platform _ _ hends'.1] at h
    cases hexecute : HTTPSession.execute platform before queryParameterString t.1 with
    | error e =>
      rw [hexecute] at h
      cases h
    | ok first =>
      rw [hexecute] at h
      obtain ⟨hown, hfirst⟩ := execute_ok platform hexecute headers none
      cases i with
      | zero =>
        obtain rfl : first = s := Option.some.inj h
        obtain ⟨own, hown⟩ := hown
        refine ⟨⟨t, own, rfl, hown⟩, ?_⟩
        rw [hfirst]
        simp
      | succ i =>
        obtain ⟨hown, hheaders⟩ := ih hends'.2 _ h
        refine ⟨hown, ?_⟩
        rw [hheaders, hfirst, List.take_succ_cons, List.flatMap_cons, putAll, putAll, putAll,
          List.foldl_append]

/-- The second of two requests on a connection is served with the range of the first. -/
theorem headers_requests_two : ∃ s,
    (requests ⟨fun _ => [], List.map Char.toLower, List.map Char.toLower⟩
      (remoteHeaders "127.0.0.1") none
      ["GET /a HTTP/1.1\r\nRange: bytes=0-1\r\n\r\nGET".toList,
        "GET /b?x=1 HTTP/1.1\r\n\r\n".toList])[1]? = some s ∧
    s.uri = "/b".toList ∧ s.headers.lookup "range" = some "bytes=0-1" := by
  have h : (requests ⟨fun _ => [], List.map Char.toLower, List.map Char.toLower⟩
      (remoteHeaders "127.0.0.1") none
      ([("GET /a HTTP/1.1\r\nRange: bytes=0-1\r\n\r\n".toList, "GET".toList),
        ("GET /b?x=1 HTTP/1.1\r\n\r\n".toList, [])].map fun t => t.1 ++ t.2))[1]? =
      some ⟨"/b".toList, .GET, [("x".toList, "1".toList)],
        remoteHeaders "127.0.0.1" ++ [("range", "bytes=0-1")], some "x=1".toList⟩ := by
    decide +kernel
  refine ⟨_, h, rfl, ?_⟩
  rw [(headers_requests _ (by decide +kernel) h).2 "range"]
  decide +kernel

end NanoHTTPD

end PopcornTime.Android
