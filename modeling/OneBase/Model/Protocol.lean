import OneBase.Model.Value
import OneBase.ToMathlib.Bytes
import OneBase.ToMathlib.Delimited

/-! # Wire protocol

`server/protocol.h` with the two ends that use it: `HandleQuery` of the server builds the body of a
RESULT message and `PrintResult` of the client takes it apart again. A connection is a reliable byte
stream, of which one `read` or `write` moves as many bytes as the moment allows.
-/

namespace OneBase.Protocol

/-- The receiving end: the bytes still to come and how many of them each call finds at most. -/
structure Source where
  bytes : List UInt8
  arrived : ℕ → ℕ
  calls : ℕ := 0

/-- The sending end: the bytes sent and how many bytes each call accepts at most. -/
structure Sink where
  bytes : List UInt8 := []
  accepted : ℕ → ℕ
  calls : ℕ := 0

/-- `::read`, which returns nothing at the end of the stream. -/
def Source.read (source : Source) (len : ℕ) : List UInt8 × Source :=
  let got := source.bytes.take (min len (source.arrived source.calls))
  (got, { source with bytes := source.bytes.drop got.length, calls := source.calls + 1 })

/-- `::write`, with the number of bytes written. -/
def Sink.write (sink : Sink) (data : List UInt8) : ℕ × Sink :=
  let n := min data.length (sink.accepted sink.calls)
  (n, { sink with bytes := sink.bytes ++ data.take n, calls := sink.calls + 1 })

/-- `ReadExact`, with the bytes it leaves in the buffer. -/
def readExact (source : Source) (remaining : ℕ) : Option (List UInt8) × Source :=
  if remaining = 0 then (some [], source)
  else
    let (got, source) := source.read remaining
    if _ : got.length = 0 then (none, source)
    else
      let (rest, source) := readExact source (remaining - got.length)
      (rest.map (got ++ ·), source)
termination_by remaining

/-- `WriteExact`. -/
def writeExact (sink : Sink) (data : List UInt8) : Bool × Sink :=
  if data.length = 0 then (true, sink)
  else
    let (n, sink) := sink.write data
    if n = 0 then (false, sink) else writeExact sink (data.drop n)
termination_by data.length

/-- A type byte and the data. -/
abbrev Message := UInt8 × Text

/-- The bytes of a 32-bit number in network order. -/
def htonl (x : ℕ) : List UInt8 := (Bytes.encode 4 x).reverse

/-- The number that four bytes in network order stand for. -/
def ntohl (bytes : List UInt8) : ℕ := Bytes.decode bytes.reverse

/-- `SendMessage`. -/
def sendMessage (sink : Sink) (message : Message) : Bool × Sink :=
  let payloadLen := (message.2.length + 1) % 2 ^ 32
  match writeExact sink (htonl payloadLen) with
  | (false, sink) => (false, sink)
  | (true, sink) =>
    match writeExact sink [message.1] with
    | (false, sink) => (false, sink)
    | (true, sink) => if message.2.isEmpty then (true, sink) else writeExact sink message.2

/-- `RecvMessage`. -/
def recvMessage (source : Source) : Option Message × Source :=
  match readExact source 4 with
  | (none, source) => (none, source)
  | (some netLen, source) =>
    let payloadLen := ntohl netLen
    if payloadLen = 0 then (none, source)
    else
      match readExact source 1 with
      | (none, source) => (none, source)
      | (some typeByte, source) =>
        let dataLen := payloadLen - 1
        if dataLen = 0 then (some (typeByte.headD 0, []), source)
        else
          let (data, source) := readExact source dataLen
          (data.map fun data => (typeByte.headD 0, data), source)

/-- A number of messages sent one after another, with the answer of each call. -/
def sendMessages : Sink → List Message → List Bool × Sink
  | sink, [] => ([], sink)
  | sink, message :: rest =>
    let (sent, sink) := sendMessage sink message
    let (more, sink) := sendMessages sink rest
    (sent :: more, sink)

/-- A number of calls of `RecvMessage`. -/
def recvMessages : ℕ → Source → List (Option Message) × Source
  | 0, source => ([], source)
  | n + 1, source =>
    let (message, source) := recvMessage source
    let (more, source) := recvMessages n source
    (message :: more, source)

section Result

/-- `'|'`. -/
def pipe : UInt8 := 124

/-- `'\n'`. -/
def newline : UInt8 := 10

/-- `'('`. -/
def paren : UInt8 := 40

/-- The loop of `FormatResultHeader` and `FormatResultRow`. -/
def pipeSeparated (parts : List Text) : Text :=
  parts.zipIdx.foldl (fun line part => (if 0 < part.2 then line ++ [pipe] else line) ++ part.1) []

/-- `FormatResultHeader`. -/
def formatResultHeader (colNames : List Text) : Text := pipeSeparated colNames

/-- `FormatResultRow`. -/
def formatResultRow (values : List Text) : Text := pipeSeparated values

/-- `ParsePipeSeparated`. -/
def parsePipeSeparated (line : Text) : List Text :=
  let (parts, current) := line.foldl (fun state c =>
    if c = pipe then (state.1 ++ [state.2], []) else (state.1, state.2 ++ [c])) ([], [])
  parts ++ [current]

/-- The row count summary. -/
def summary (rows : ℕ) : Text :=
  ascii "(" ++ Value.decimal rows ++ ascii " row" ++ (if rows ≠ 1 then ascii "s" else []) ++ ascii ")"

/-- The body of a RESULT message, as `HandleQuery` builds it. -/
def resultBody (colNames : List Text) (rows : List (List Text)) : Text :=
  rows.foldl (fun body row => body ++ (formatResultRow row ++ [newline])) (formatResultHeader colNames ++ [newline]) ++
    summary rows.length

/-- A line at which `PrintResult` stops reading rows. -/
def endsRows (line : Text) : Bool := line.isEmpty || line.head? = some paren

/-- What `PrintResult` takes a body for: the column names and the rows. -/
def parseResult (body : Text) : Option (List Text × List (List Text)) :=
  match Delimited.lines newline body with
  | [] => none
  | header :: rest => some (parsePipeSeparated header, (rest.takeWhile (!endsRows ·)).map parsePipeSeparated)

end Result

end OneBase.Protocol
