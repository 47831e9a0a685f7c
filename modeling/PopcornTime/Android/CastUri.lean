import Mathlib.Data.List.SplitBy
import PopcornTime.Android.CastHeader

namespace PopcornTime.Android

open PopcornTime

/-!
# Android — the links of the cast server

The listing of a directory has a link for each file.  What stands between slashes and spaces is
encoded for a form, which would make a plus sign of a space; the spaces themselves are written as
`%20`.

* `SimpleWebServer.encodeUri_eq` — all of a uri is percent encoded but the slashes.
* `SimpleWebServer.execute_link` — the request for a link is read as the uri it was made from.
-/

namespace SimpleWebServer

open NanoHTTPD

/-! ### Encoding -/

/-- The characters that `URLEncoder` leaves. -/
def isUnreserved (c : Char) : Bool := c.isAlphanum || c ∈ ['.', '-', '*', '_']

/-- `URLEncoder.encode(s, "UTF-8")` -/
def urlEncode (s : List Char) : List Char :=
  s.flatMap fun c => if c = ' ' then ['+'] else PercentEncoding.encodeChar isUnreserved c

/-- The tokens of `new StringTokenizer(s, delims, true)`, in which each delimiter is a token. -/
def tokensWithDelims (isDelim : Char → Bool) (s : List Char) : List (List Char) :=
  s.splitBy fun a b => !isDelim a && !isDelim b

def encodeUri (uri : List Char) : List Char :=
  (tokensWithDelims (fun c => c == '/' || c == ' ') uri).flatMap fun tok =>
    if tok = ['/'] then ['/']
    else if tok = [' '] then "%20".toList
    else urlEncode tok

/-- The characters of a uri that stay as they are. -/
def stays (c : Char) : Bool := c == '/' || isUnreserved c

/-- A token of more than one character has no delimiter. -/
theorem isDelim_of_isChain (isDelim : Char → Bool) {a b : Char} {rest : List Char}
    (h : (a :: b :: rest).IsChain fun a b => (!isDelim a && !isDelim b) = true) :
    ∀ c ∈ a :: b :: rest, isDelim c = false := by
  induction rest generalizing a b with
  | nil =>
    have hab : (!isDelim a && !isDelim b) = true := by simpa using h
    rw [Bool.and_eq_true, Bool.not_eq_true', Bool.not_eq_true'] at hab
    intro c hc
    rcases List.mem_cons.mp hc with rfl | hc
    · exact hab.1
    · exact List.mem_singleton.mp hc ▸ hab.2
  | cons d rest ih =>
    obtain ⟨hab, hrest⟩ := List.isChain_cons_cons.mp h
    rw [Bool.and_eq_true, Bool.not_eq_true', Bool.not_eq_true'] at hab
    intro c hc
    rcases List.mem_cons.mp hc with rfl | hc
    · exact hab.1
    · exact ih hrest c hc

/-- A text without slashes and spaces is encoded as it is in a uri. -/
theorem urlEncode_eq {tok : List Char} (h : ∀ c ∈ tok, (c == '/' || c == ' ') = false) :
    urlEncode tok = PercentEncoding.encode stays tok := by
  rw [urlEncode, PercentEncoding.encode]
  apply List.flatMap_congr
  intro c hc
  have hdelim := h c hc
  rw [Bool.or_eq_false_iff, beq_eq_false_iff_ne, beq_eq_false_iff_ne] at hdelim
  have hstays : stays c = isUnreserved c := by simp [stays, hdelim.1]
  rw [if_neg hdelim.2, PercentEncoding.encodeChar, PercentEncoding.encodeChar, hstays]

theorem encodeToken_eq {tok : List Char}
    (h : tok.IsChain fun a b => (!(a == '/' || a == ' ') && !(b == '/' || b == ' ')) = true) :
    (if tok = ['/'] then ['/'] else if tok = [' '] then "%20".toList else urlEncode tok) =
      PercentEncoding.encode stays tok := by
  split_ifs with hslash hspace
  · rw [hslash]
    decide
  · rw [hspace]
    decide
  · apply urlEncode_eq
    cases tok with
    | nil => simp
    | cons a rest =>
      cases rest with
      | nil => simpa using ⟨by simpa using hslash, by simpa using hspace⟩
      | cons b rest => exact isDelim_of_isChain (fun c => c == '/' || c == ' ') h

/-- **The encoding** of a uri: the slashes and what is unreserved stay. -/
theorem encodeUri_eq (uri : List Char) : encodeUri uri = PercentEncoding.encode stays uri := by
  set toks := tokensWithDelims (fun c => c == '/' || c == ' ') uri with htoks
  have huri : toks.flatten = uri := List.flatten_splitBy _ _
  rw [encodeUri, ← htoks, PercentEncoding.encode, ← huri, ← List.flatMap_id, List.flatMap_assoc]
  apply List.flatMap_congr
  intro tok htok
  exact encodeToken_eq (List.isChain_of_mem_splitBy htok)

/-! ### Following a link -/

theorem readLinesFrom_requestLine {start line : List Char} (h : ∀ c ∈ line, isLineEnd c = false)
    (more : List Char) :
    readLinesFrom start (line ++ crlf ++ more) = (start ++ line) :: readLines more := by
  induction line generalizing start with
  | nil =>
    rw [List.append_nil]
    rfl
  | cons c line ih =>
    rw [List.forall_mem_cons] at h
    rw [List.cons_append, List.cons_append, readLinesFrom_cons h.1, ih h.2, List.append_assoc,
      List.singleton_append]

theorem readLines_requestLine {line : List Char} (h : ∀ c ∈ line, isLineEnd c = false)
    (more : List Char) : readLines (line ++ crlf ++ more) = line :: readLines more :=
  readLinesFrom_requestLine h more

/-- The request for a link, with the lines behind the first. -/
def requestFor (link more : List Char) : List Char :=
  "GET ".toList ++ link ++ " HTTP/1.1".toList ++ crlf ++ more

/-- A link has neither blanks nor a question mark. -/
theorem encodeUri_mem {uri : List Char} {c : Char} (h : c ∈ encodeUri uri) :
    isBlank c = false ∧ c ≠ '?' ∧ isLineEnd c = false := by
  rw [encodeUri_eq] at h
  rcases PercentEncoding.encode_mem h with ⟨hstays, -⟩ | hmem
  · refine ⟨?_, ?_, ?_⟩
    · cases hblank : isBlank c with
      | false => rfl
      | true =>
        have hone : c = ' ' ∨ c = '\t' ∨ c = '\n' ∨ c = '\r' ∨ c = '\x0c' := by
          simpa [isBlank] using hblank
        rcases hone with rfl | rfl | rfl | rfl | rfl
        all_goals exact absurd hstays (by decide)
    · rintro rfl
      exact absurd hstays (by decide)
    · cases hend : isLineEnd c with
      | false => rfl
      | true =>
        have hone : c = '\n' ∨ c = '\r' := by simpa [isLineEnd] using hend
        rcases hone with rfl | rfl
        all_goals exact absurd hstays (by decide)
  · have hall : "%0123456789ABCDEF".toList.all
        (fun c => decide (isBlank c = false ∧ c ≠ '?' ∧ isLineEnd c = false)) = true := by decide
    exact of_decide_eq_true (List.all_eq_true.mp hall c hmem)

theorem tokens_requestLine {link : List Char} (hne : link ≠ [])
    (hblank : ∀ c ∈ link, isBlank c = false) :
    tokens isBlank ("GET ".toList ++ link ++ " HTTP/1.1".toList) =
      ["GET".toList, link, "HTTP/1.1".toList] := by
  have hline : "GET ".toList ++ link ++ " HTTP/1.1".toList =
      "GET".toList ++ ' ' :: (link ++ ' ' :: "HTTP/1.1".toList) := by
    simp
  have hget : "GET".toList.all (fun c => decide (isBlank c = false)) = true := by decide
  have hversion : "HTTP/1.1".toList.all (fun c => decide (isBlank c = false)) = true := by decide
  rw [hline, tokens, List.splitOnP_append_cons _ _ (by decide), List.splitOnP_append_cons _ _
    (by decide),
    List.splitOnP_eq_singleton fun c hc => of_decide_eq_true (List.all_eq_true.mp hget c hc),
    List.splitOnP_eq_singleton hblank,
    List.splitOnP_eq_singleton fun c hc => of_decide_eq_true (List.all_eq_true.mp hversion c hc)]
  simp [hne]

/-- **A link leads back.**  The request for the link of a uri is read as the uri. -/
theorem execute_link (platform : Platform) (headers : List (String × String))
    (queryParameterString : Option (List Char)) {uri : List Char} (hne : uri ≠ [])
    (more : List Char) :
    ∃ s, HTTPSession.execute platform headers queryParameterString
      (requestFor (encodeUri uri) more) = .ok s ∧ s.uri = uri ∧ s.method = .GET ∧ s.parms = [] := by
  -- what is escaped is read back
  have hdecode : PercentEncoding.decode platform.malformed (encodeUri uri) = some uri := by
    rw [encodeUri_eq]
    exact PercentEncoding.decode_encode (by decide) (by decide) uri
  have hlink : encodeUri uri ≠ [] := by
    intro h
    rw [h] at hdecode
    exact hne (Option.some.inj hdecode).symm
  -- no mark is left in the link, so there is no query
  have hmark : '?' ∉ encodeUri uri := fun h => (encodeUri_mem h).2.1 rfl
  -- and no line end, so the request line is one line
  have hlines : readLines (requestFor (encodeUri uri) more) =
      ("GET ".toList ++ encodeUri uri ++ " HTTP/1.1".toList) :: readLines more := by
    rw [requestFor, readLines_requestLine]
    intro c hc
    have hget : "GET ".toList.all (fun c => decide (isLineEnd c = false)) = true := by decide
    have hversion : " HTTP/1.1".toList.all (fun c => decide (isLineEnd c = false)) = true := by
      decide
    rw [List.mem_append, List.mem_append] at hc
    rcases hc with (hc | hc) | hc
    · exact of_decide_eq_true (List.all_eq_true.mp hget c hc)
    · exact (encodeUri_mem hc).2.2
    · exact of_decide_eq_true (List.all_eq_true.mp hversion c hc)
  have htokens := tokens_requestLine hlink fun c hc => (encodeUri_mem hc).1
  have hparms : uriParms platform (encodeUri uri) = .ok [] := by
    rw [uriParms, List.idxOf_of_notMem hmark, if_neg (lt_irrefl _)]
  have huri : decodePercent platform ((encodeUri uri).take ((encodeUri uri).idxOf '?')) = .ok uri := by
    rw [List.idxOf_of_notMem hmark, List.take_length, decodePercent, hdecode]
  have hget : Method.lookup "GET".toList = some .GET := by decide
  rw [HTTPSession.execute, hlines, decodeHeader, htokens]
  simp only [hparms, huri, Bind.bind, Except.bind, Pure.pure, Except.pure, Option.bind_some, hget]
  exact ⟨_, rfl, rfl, rfl, rfl⟩

end SimpleWebServer

end PopcornTime.Android
