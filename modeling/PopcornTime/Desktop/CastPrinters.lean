import PopcornTime.Desktop.NjsProcess
import PopcornTime.Lib.FramedMessages

namespace PopcornTime.Desktop

open PopcornTime

/-!
# Desktop — what the cast process prints

The node scripts print their messages as `<<key: payload>>||` between lines of their log.

* `Json.stringify`, `Message.payload` — the printers.
* `run_printed_iff` — every message comes through exactly if its payload is plain and holds no
  footer.
* `run_reads_iff` — and then in any reads that cut no header.
-/

/-- A text of the node scripts. -/
abbrev JsText := List Char

/-- The bytes that are printed of a text. -/
def utf8 (text : JsText) : QByteArray :=
  text.flatMap String.utf8EncodeChar

/-- A value that is made into JSON; a number is the text it is printed as. -/
inductive Json
  | null
  | bool (b : Bool)
  | num (text : JsText)
  | str (text : JsText)
  | arr (items : List Json)
  | obj (fields : List (JsText × Json))

namespace Json

/-- A character in quotes. -/
def quoteChar (c : Char) : JsText :=
  if c = '"' ∨ c = '\\' then ['\\', c]
  else if c = '\x08' then ['\\', 'b']
  else if c = '\x0c' then ['\\', 'f']
  else if c = '\n' then ['\\', 'n']
  else if c = '\r' then ['\\', 'r']
  else if c = '\t' then ['\\', 't']
  else if c.toNat < 0x20 then
    ['\\', 'u', '0', '0', Nat.digitChar (c.toNat / 16), Nat.digitChar (c.toNat % 16)]
  else [c]

def quote (text : JsText) : JsText :=
  ['"'] ++ text.flatMap quoteChar ++ ['"']

mutual

/-- `JSON.stringify` -/
def stringify : Json → JsText
  | .null => "null".toList
  | .bool b => if b then "true".toList else "false".toList
  | .num text => text
  | .str text => quote text
  | .arr items => ['['] ++ stringifyItems items ++ [']']
  | .obj fields => ['{'] ++ stringifyFields fields ++ ['}']

def stringifyItems : List Json → JsText
  | [] => []
  | item :: items =>
    item.stringify ++ (if items.isEmpty then [] else [','] ++ stringifyItems items)

def stringifyFields : List (JsText × Json) → JsText
  | [] => []
  | (name, value) :: fields =>
    quote name ++ [':'] ++ value.stringify ++
      (if fields.isEmpty then [] else [','] ++ stringifyFields fields)

end

end Json

/-- An argument of a printer: a value that counts as false, with the text it is printed as, a text,
    or another value with its `toString()`. -/
inductive JsValue
  | falsy (text : JsText)
  | string (text : JsText)
  | other (text : JsText) (json : Json)

/-- `msg && typeof msg != 'string' && msg.toString().indexOf('[') == 0 ? JSON.stringify(msg) : msg`,
    as it is printed. -/
def JsValue.printed : JsValue → JsText
  | .falsy text => text
  | .string text => text
  | .other text json => if text.head? = some '[' then json.stringify else text

/-- `!msg || msg == '' ? '{}' : msg` -/
def JsValue.printedOrEmpty (msg : JsValue) : JsText :=
  match msg with
  | .falsy _ => "{}".toList
  | msg => if msg.printed = [] then "{}".toList else msg.printed

/-- What a media renderer says of its media; a duration that is missing or zero is `none`, as is a
    missing position. -/
structure DlnaMedia where
  transportState : JsText
  duration : Option JsText
  position : Option JsText

/-- What an AirPlay device says of its media. -/
structure AirMedia where
  rate : Option JsText
  duration : Option JsText
  position : Option JsText
  readyToPlay : Bool

/-- A field that `JSON.stringify` leaves out if it is undefined. -/
def numField (name : String) (value : Option JsText) : List (JsText × Json) :=
  match value with
  | none => []
  | some text => [(name.toList, .num text)]

/-- The object behind `MSTAT` for a device other than a Chromecast. -/
def mediaStatusJson (playbackRate : Option JsText) (playerState : String)
    (duration position : Option JsText) : Json :=
  .obj ([("mediaSessionId".toList, .num ['1'])] ++ numField "playbackRate" playbackRate ++
    [("playerState".toList, .str playerState.toList)] ++
    numField "currentTime" (if duration.isSome then position else some ['0']) ++
    [("supportedMediaCommands".toList, .num ['5']),
      ("volume".toList, .obj [("level".toList, .num ['1']), ("muted".toList, .bool false)]),
      ("media".toList, .obj [("contentId".toList, .str []),
        ("duration".toList, .num (duration.getD ['0']))])])

/-- What the node scripts print for the desktop; the device types differ in `MSTAT`. -/
inductive Message
  | deviceFound (id : ℕ) (deviceType name ip url : JsText)
  | mediaStatus (msg : JsValue)
  | dlnaMediaStatus (msg : Option DlnaMedia)
  | airMediaStatus (msg : Option AirMedia)
  | deviceStatus (connected : Bool)
  | listenUrl (ip : JsText) (port : ℕ)
  | warn (msg : JsValue)

namespace Message

def key : Message → JsText
  | .deviceFound .. => "DEVICE_FOUND".toList
  | .mediaStatus _ | .dlnaMediaStatus _ | .airMediaStatus _ => "MSTAT".toList
  | .deviceStatus _ => "DSTAT".toList
  | .listenUrl .. => "LISTEN_URL".toList
  | .warn _ => "WARN".toList

/-- What stands between the key and the footer; `PrintWarn` has a brace of its own there. -/
def payload : Message → JsText
  | .deviceFound id deviceType name ip url =>
    Json.stringify (.obj [("id".toList, .num (Nat.toDigits 10 id)),
      ("deviceType".toList, .str deviceType), ("name".toList, .str name),
      ("ip".toList, .arr [.str ip]),
      ("url".toList, .str (if url = [] then ip ++ ":7000".toList else url))])
  | .mediaStatus msg => msg.printedOrEmpty
  | .dlnaMediaStatus none => "{}".toList
  | .dlnaMediaStatus (some msg) =>
    Json.stringify (mediaStatusJson (some "144".toList)
      (if msg.transportState = "PLAYING".toList then "PLAYING"
        else if msg.transportState = "PAUSED_PLAYBACK".toList then "PAUSED" else "BUFFERING")
      msg.duration msg.position)
  | .airMediaStatus none => "{}".toList
  | .airMediaStatus (some msg) =>
    Json.stringify (mediaStatusJson msg.rate
      (if msg.duration.isSome then
        if msg.rate = some ['1'] then if msg.readyToPlay then "PLAYING" else "BUFFERING"
        else "PAUSED"
      else "BUFFERING")
      msg.duration msg.position)
  | .deviceStatus connected => if connected then "CONNECTED".toList else "STOPPED".toList
  | .listenUrl ip port => "http://".toList ++ ip ++ [':'] ++ Nat.toDigits 10 port ++ ['/']
  | .warn msg => msg.printed ++ ['}']

/-- What the format has behind the footer, with the line end of `console.log`. -/
def tail : Message → JsText
  | .deviceFound .. => "||\r\n\n".toList
  | .listenUrl .. => "||\n".toList
  | _ => "||\n\n".toList

def printed (m : Message) : QByteArray :=
  utf8 ("<<".toList ++ m.key ++ ": ".toList ++ m.payload ++ ">>".toList ++ m.tail)

/-- The message as a token. -/
def token (m : Message) : Token :=
  ⟨utf8 m.key, utf8 m.payload⟩

/-- The payload is not empty, is plain, and neither holds a footer nor ends with half of one. -/
def Transparent (m : Message) : Prop :=
  utf8 m.payload ≠ [] ∧ Plain (utf8 m.payload) ∧
    ¬ NjsProcess.footer <:+: utf8 m.payload ++ [0x3E]

end Message

/-- A line of the log without a header. -/
structure LogLine where
  text : JsText
  noHeader : ¬ NjsProcess.header <:+: utf8 text

/-- What a call of `console.log` prints. -/
inductive Output
  | message (m : Message)
  | log (line : LogLine)

namespace Output

def printed : Output → QByteArray
  | .message m => m.printed
  | .log line => utf8 (line.text ++ ['\n'])

/-- The token that is meant. -/
def token? : Output → Option Token
  | .message m => some m.token
  | .log _ => none

/-- The part of the stream. -/
def piece : Output → Framing.Piece UInt8 Token
  | .message m =>
    .message (utf8 m.key ++ [0x3A, 0x20] ++ utf8 m.payload) (utf8 m.tail) m.token
  | .log line => .plain (utf8 (line.text ++ ['\n']))

end Output

/-- Texts are printed one after the other. -/
theorem utf8_append (text text' : JsText) : utf8 (text ++ text') = utf8 text ++ utf8 text' :=
  List.flatMap_append

/-- Items that a pair is not made of, ahead of others. -/
theorem pair_infix_append {c : UInt8} {pre xs : QByteArray} (h : c ∉ pre) :
    [c, c] <:+: pre ++ xs ↔ [c, c] <:+: xs := by
  induction pre with
  | nil => rfl
  | cons x pre ih =>
    rw [List.mem_cons, not_or] at h
    rw [List.cons_append, List.infix_cons_iff, ih h.2]
    refine ⟨fun hin => hin.resolve_left ?_, .inr⟩
    rintro ⟨rest, hrest⟩
    exact h.1 (List.cons.inj hrest).1

namespace Message

/-- The keys there are. -/
theorem key_mem (m : Message) :
    m.key ∈ ["DEVICE_FOUND".toList, "MSTAT".toList, "DSTAT".toList, "LISTEN_URL".toList,
      "WARN".toList] :=
  match m with
  | .deviceFound .. => .head _
  | .mediaStatus _ | .dlnaMediaStatus _ | .airMediaStatus _ => .tail _ (.head _)
  | .deviceStatus _ => .tail _ (.tail _ (.head _))
  | .listenUrl .. => .tail _ (.tail _ (.tail _ (.head _)))
  | .warn _ => .tail _ (.tail _ (.tail _ (.tail _ (.head _))))

/-- A key is a word of its own. -/
theorem key_spec (m : Message) :
    utf8 m.key ≠ [] ∧ Plain (utf8 m.key) ∧ ¬ [0x3A, 0x20] <:+: utf8 m.key ++ [0x3A] ∧
      0x3E ∉ utf8 m.key := by
  have hall : ∀ key ∈ ["DEVICE_FOUND".toList, "MSTAT".toList, "DSTAT".toList,
      "LISTEN_URL".toList, "WARN".toList],
      utf8 key ≠ [] ∧ Plain (utf8 key) ∧ ¬ [0x3A, 0x20] <:+: utf8 key ++ [0x3A] ∧
        0x3E ∉ utf8 key := by decide
  exact hall m.key m.key_mem

/-- What the formats have behind the footer. -/
theorem tail_mem (m : Message) :
    m.tail ∈ ["||\r\n\n".toList, "||\n".toList, "||\n\n".toList] :=
  match m with
  | .deviceFound .. => .head _
  | .listenUrl .. => .tail _ (.head _)
  | .mediaStatus _ | .dlnaMediaStatus _ | .airMediaStatus _ | .deviceStatus _ | .warn _ =>
    .tail _ (.tail _ (.head _))

/-- It holds no header, and is passed over as a whole. -/
theorem tail_spec (m : Message) :
    0x3C ∉ utf8 m.tail ∧ 2 < (utf8 m.tail).length ∧ (utf8 m.tail).length < 6 := by
  have hall : ∀ tail ∈ ["||\r\n\n".toList, "||\n".toList, "||\n\n".toList],
      0x3C ∉ utf8 tail ∧ 2 < (utf8 tail).length ∧ (utf8 tail).length < 6 := by decide
  exact hall m.tail m.tail_mem

/-- A message is a header, its key and payload, a footer and its tail. -/
theorem printed_eq (m : Message) :
    m.printed = [0x3C, 0x3C] ++ (utf8 m.key ++ [0x3A, 0x20] ++ utf8 m.payload) ++
      [0x3E, 0x3E] ++ utf8 m.tail := by
  simp only [printed, utf8_append, List.append_assoc]
  rfl

end Message

open Framing

/-- What a call prints is its part of the stream. -/
theorem Output.items_piece (o : Output) : o.piece.items NjsProcess.framing = o.printed := by
  match o with
  | .message m =>
    rw [Output.printed, Message.printed_eq]
    simp [Output.piece, Piece.items, NjsProcess.framing]
  | .log line => rfl

/-- The parts fit the framing. -/
theorem Output.fits_piece (o : Output) : o.piece.Fits NjsProcess.framing Token.size := by
  match o with
  | .message m =>
    obtain ⟨hlt, hlong, hshort⟩ := m.tail_spec
    refine ⟨hlt, hlong, hshort, by simp, ?_⟩
    simp only [Message.token, Token.size, List.length_append, List.length_cons, List.length_nil]
  | .log line =>
    have hline : utf8 (line.text ++ ['\n']) = utf8 line.text ++ [0x0A] := utf8_append _ _
    show ¬ [0x3C, 0x3C] <:+: _ ∧ _ ≠ some 0x3C
    rw [hline, pair_infix_concat, not_or]
    exact ⟨⟨line.noHeader, by simp⟩, by simp⟩

/-- A message is carried by it exactly if it is transparent. -/
theorem Output.carried_piece (m : Message) :
    (Output.message m).piece.Carried NjsProcess.framing ↔ m.Transparent := by
  obtain ⟨hne, hplain, hcolon, hgt⟩ := m.key_spec
  show ¬ [0x3E, 0x3E] <:+: utf8 m.key ++ [0x3A, 0x20] ++ utf8 m.payload ++ [0x3E] ∧
    NjsProcess.haveToken (utf8 m.key ++ [0x3A, 0x20] ++ utf8 m.payload) =
      some ⟨utf8 m.key, utf8 m.payload⟩ ↔ _
  have hpre : (0x3E : UInt8) ∉ utf8 m.key ++ [0x3A, 0x20] := by
    rw [List.mem_append, not_or]
    exact ⟨hgt, by decide⟩
  rw [List.append_assoc _ (utf8 m.payload), pair_infix_append hpre,
    NjsProcess.haveToken_eq_iff hne hplain hcolon]
  exact ⟨fun h => ⟨h.2.1, h.2.2, h.1⟩, fun h => ⟨h.2.2, h.1, h.2.1⟩⟩

/-- What is printed. -/
def printedStream (outputs : List Output) : QByteArray :=
  outputs.flatMap Output.printed

/-- The stream is made of the parts, -/
theorem printedStream_eq (outputs : List Output) :
    printedStream outputs = (outputs.map Output.piece).flatMap (Piece.items NjsProcess.framing) := by
  rw [List.flatMap_map]
  exact List.flatMap_congr fun o _ => o.items_piece.symm

/-- and so are the tokens that are meant. -/
theorem filterMap_token? (outputs : List Output) :
    outputs.filterMap Output.token? =
      (outputs.map Output.piece).flatMap (fun piece => piece.want?.toList) := by
  induction outputs with
  | nil => rfl
  | cons o outputs ih =>
    rw [List.map_cons, List.flatMap_cons, ← ih]
    cases o <;> rfl

/-- A single read begins in a gap. -/
theorem run_singleton (xs : QByteArray) :
    NjsProcess.run [xs] = NjsProcess.framing.tokens .gap xs := by
  rw [NjsProcess.run_eq_readTokens, readTokens, readTokens, List.append_nil]

/-- In a single read every message is read as it was printed exactly if each is transparent. -/
theorem run_printed_iff (outputs : List Output) :
    NjsProcess.run [printedStream outputs] = outputs.filterMap Output.token? ↔
      ∀ m, Output.message m ∈ outputs → m.Transparent := by
  have hfits : ∀ piece ∈ outputs.map Output.piece, piece.Fits NjsProcess.framing Token.size := by
    rintro piece hpiece
    obtain ⟨o, -, rfl⟩ := List.mem_map.mp hpiece
    exact o.fits_piece
  rw [run_singleton, printedStream_eq, filterMap_token?,
    tokens_eq_iff (fun _ _ => NjsProcess.size_haveToken_le) hfits,
    List.forall_mem_map]
  constructor
  · exact fun h m hm => (Output.carried_piece m).mp (h _ hm)
  · intro h o ho
    cases o with
    | message m => exact (Output.carried_piece m).mpr (h m ho)
    | log line => exact trivial

/-- A device whose name holds a footer. -/
def footerDevice : Message :=
  .deviceFound 0 "dlna".toList "TV >> 2".toList "10.0.0.7".toList "http://10.0.0.7/d.xml".toList

/-- The payload ends with the footer in the name. -/
theorem footerDevice_cut_short :
    NjsProcess.run [printedStream [.message footerDevice]] ≠
      [Output.message footerDevice].filterMap Output.token? := by
  decide +kernel

/-- Reads that end only where it is harmless give the signals of a single read; of a stream of
    transparent messages no other reads do. -/
theorem run_reads_iff (reads : List QByteArray) :
    (NjsProcess.framing.HarmlessCuts .gap reads →
      NjsProcess.run reads = NjsProcess.run [reads.flatten]) ∧
    ∀ outputs, (∀ m, Output.message m ∈ outputs → m.Transparent) →
      reads.flatten = printedStream outputs →
      (NjsProcess.run reads = NjsProcess.run [reads.flatten] ↔
        NjsProcess.framing.HarmlessCuts .gap reads) := by
  rw [run_singleton, NjsProcess.run_eq_readTokens]
  refine ⟨fun h => NjsProcess.framing.readTokens_of_harmlessCuts h, ?_⟩
  intro outputs htransparent hreads
  rw [printedStream_eq] at hreads
  refine readTokens_eq_iff (fun _ _ => NjsProcess.size_haveToken_le) ?_ hreads
  rintro piece hpiece
  obtain ⟨o, ho, rfl⟩ := List.mem_map.mp hpiece
  refine ⟨o.fits_piece, ?_⟩
  cases o with
  | message m => exact (Output.carried_piece m).mpr (htransparent m ho)
  | log line => exact trivial

/-- A read that ends within a header. -/
theorem torn_header_lost :
    NjsProcess.run [(Message.deviceStatus true).printed.take 1,
        (Message.deviceStatus true).printed.drop 1] = [] ∧
      NjsProcess.run [[(Message.deviceStatus true).printed.take 1,
        (Message.deviceStatus true).printed.drop 1].flatten] =
          [(Message.deviceStatus true).token] := by
  decide

end PopcornTime.Desktop
