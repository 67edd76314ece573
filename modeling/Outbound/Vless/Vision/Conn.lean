import Outbound.Lib.Run
import Outbound.Lib.Stream
import Outbound.Netproxy
import Outbound.Vless.Vision.Filter

/-! A connection of the Vision flow. The writer pads and frames its first payloads and then goes on
without frames, inside the outer TLS or beside it; the reader follows it. -/
namespace Outbound.Vless.Vision

open Lib

def paddingHeaderLen : ℕ := 21

def commandPaddingContinue : UInt8 := 0

def commandPaddingEnd : UInt8 := 1

def commandPaddingDirect : UInt8 := 2

def bufferSize : ℕ := 32 * 1024

/-- The random draws behind one frame: the two numbers that lengths are made from, and the padding
bytes. -/
structure Draw where
  long : Fin 500
  short : Fin 256
  bytes : ℕ → UInt8

def paddingLen (contentLen : ℕ) (longPadding : Bool) (draw : Draw) : ℕ :=
  if contentLen < 900 ∧ longPadding then draw.long + 900 - contentLen else draw.short

/-- A frame: the user's id if given, the command, the two lengths in 16 bits each, content and
padding. -/
def frame (userUUID : Bytes) (command : UInt8) (content padding : Bytes) : Bytes :=
  userUUID ++ command :: (beBytes 2 content.length ++ (beBytes 2 padding.length ++
    (content ++ padding)))

def applyPadding (p : Bytes) (command : UInt8) (userUUID : Bytes) (longPadding : Bool)
    (draw : Draw) : Bytes :=
  frame userUUID command p ((List.range (paddingLen p.length longPadding draw)).map draw.bytes)

/-- Where a large buffer is cut: at its last application data record, if that is not too close to
the ends. -/
def reshapeIndex (b : Bytes) : ℕ :=
  match bytesLastIndex b tlsApplicationDataStart with
  | none => bufferSize / 2
  | some index =>
    if index < paddingHeaderLen ∨ index > bufferSize - paddingHeaderLen then bufferSize / 2
    else index

def reshapeBytes (b : Bytes) : Bytes × Option Bytes :=
  if b.length < bufferSize - paddingHeaderLen then (b, none)
  else (b.take (reshapeIndex b), some (b.drop (reshapeIndex b)))

/-- What the outer connection turned out to be when the handshake frame was out. -/
inductive OuterTLS where
  | tls13
  | older
  | unsupported (typeName : String)
deriving DecidableEq

structure Writer where
  userUUID : Octets 16
  outer : OuterTLS
  needHandshake : Bool
  writeFilterApplicationData : Bool
  toWriteDirect : Bool
  writeDirect : Bool
  filter : Filter
deriving DecidableEq

/-- One call of `Write` on the connection below: inside the outer TLS, or beside it. -/
inductive Emission where
  | overlay (b : Bytes)
  | direct (b : Bytes)
deriving DecidableEq

structure Wrote where
  emitted : List Emission
  err : Option Error
deriving DecidableEq

structure FilterSnapshot where
  packetsToFilter : ℕ
  isTLS : Bool
  isTLS12orAbove : Bool
  enableXTLS : Bool

def Filter.snapshot (f : Filter) : FilterSnapshot :=
  ⟨f.packetsToFilter, f.isTLS, f.isTLS12orAbove, f.enableXTLS⟩

namespace Writer

def new (userUUID : Octets 16) (outer : OuterTLS) : Writer :=
  ⟨userUUID, outer, true, true, false, false, .new⟩

def emit (w : Writer) (b : Bytes) : Emission := if w.writeDirect then .direct b else .overlay b

def outerError (w : Writer) : Option Error :=
  match w.outer with
  | .tls13 => none
  | .older => some (.errorf "XTLS Vision based on TLS 1.3 outer connection")
  | .unsupported t => some (.errorf s!"unsupported tls connection type: {t}")

/-- What else happens during one write: the buffers that the reading half passes through the shared
sniffer between the steps of the write, and the random draws. -/
structure Chance where
  seen₁ : List Bytes
  seen₂ : List Bytes
  draw₁ : Draw
  draw₂ : Draw

def writeHandshake (w : Writer) (p : Bytes) (c : Chance) : Wrote × Writer :=
  let w := { w with needHandshake := false }
  let w := if p.length = 0 then w
    else { w with filter := (w.filter.filterTLS p).filterAll c.seen₁ }
  let longPadding := if p.length = 0 then true else w.filter.isTLS
  (⟨[w.emit (applyPadding p commandPaddingContinue w.userUUID.1 longPadding c.draw₁)],
    w.outerError⟩, w)

def endCommand (enableXTLS : Bool) : UInt8 :=
  if enableXTLS then commandPaddingDirect else commandPaddingEnd

def writeOne (w : Writer) (sn : FilterSnapshot) (isCompleteAppData : Bool) (p : Bytes)
    (c : Chance) : Wrote × Writer :=
  if isCompleteAppData && startsWithAppData p then
    (⟨[w.emit (applyPadding p (endCommand sn.enableXTLS) [] true c.draw₁)], none⟩,
      { w with toWriteDirect := sn.enableXTLS, writeFilterApplicationData := false })
  else if !sn.isTLS12orAbove ∧ sn.packetsToFilter ≤ 1 then
    (⟨[w.emit (applyPadding p commandPaddingEnd [] sn.isTLS c.draw₁)], none⟩,
      { w with writeFilterApplicationData := false })
  else
    (⟨[w.emit (applyPadding p commandPaddingContinue [] sn.isTLS c.draw₁)], none⟩, w)

def writeTwo (w : Writer) (sn : FilterSnapshot) (isCompleteAppData : Bool) (p p2 : Bytes)
    (c : Chance) : Wrote × Writer :=
  if isCompleteAppData && startsWithAppData p then
    (⟨[w.emit (applyPadding p commandPaddingContinue [] true c.draw₁),
        w.emit (applyPadding p2 (endCommand sn.enableXTLS) [] (startsWithAppData p2) c.draw₂)], none⟩,
      { w with toWriteDirect := sn.enableXTLS, writeFilterApplicationData := false })
  else if !sn.isTLS12orAbove ∧ sn.packetsToFilter ≤ 1 then
    (⟨[w.emit (applyPadding p commandPaddingEnd [] sn.isTLS c.draw₁), w.emit p2], none⟩,
      { w with writeFilterApplicationData := false })
  else
    (⟨[w.emit (applyPadding p commandPaddingContinue [] sn.isTLS c.draw₁),
        w.emit (applyPadding p2 commandPaddingContinue [] sn.isTLS c.draw₂)], none⟩, w)

/-- `if vc.toWriteDirect { vc.writer.writeDirect = true }`. -/
def switch (s : Wrote × Writer) : Wrote × Writer :=
  (s.1, if s.2.toWriteDirect then { s.2 with writeDirect := true } else s.2)

variable (w : Writer) (b p : Bytes) (c : Chance)

/-- What a write does once the sniffer has seen its pieces and has come to `f`. -/
def writeSniffed (f : Filter) (isCompleteAppData : Bool) (p : Bytes)
    (p2 : Option Bytes) (c : Chance) : Wrote × Writer :=
  let sn := f.snapshot
  let w := { w with filter := f }
  if !sn.isTLS then
    (⟨w.emit (applyPadding p commandPaddingEnd [] false c.draw₁) :: (p2.map w.emit).toList, none⟩,
      { w with writeFilterApplicationData := false, filter := f.stopFiltering })
  else
    match p2 with
    | none => switch (w.writeOne sn isCompleteAppData p c)
    | some p2 => switch (w.writeTwo sn isCompleteAppData p p2 c)

def sniffed : Filter :=
  let f := (w.filter.filterTLS (reshapeBytes b).1).filterAll c.seen₁
  ((reshapeBytes b).2.elim f f.filterTLS).filterAll c.seen₂

/-- A write after the first while application data is still filtered. -/
def writeFiltered : Wrote × Writer :=
  w.writeSniffed (w.sniffed b c) (isCompleteAppDataRecords b) (reshapeBytes b).1 (reshapeBytes b).2 c

def writeLocked : Wrote × Writer :=
  if w.needHandshake then w.writeHandshake p c
  else if w.writeFilterApplicationData then w.writeFiltered p c
  else (⟨[w.emit p], none⟩, w)

def write : Wrote × Writer :=
  if w.writeFilterApplicationData then w.writeLocked p c else (⟨[w.emit p], none⟩, w)

/-- The handshake frame for a server that speaks first. -/
def flushHandshakeIfNeeded : Wrote × Writer :=
  if !w.needHandshake then (⟨[], none⟩, w) else w.writeLocked [] c

end Writer

/-- What a reader reads from: the plaintext of the outer TLS, of which `input` is decrypted already,
and the bytes that come beside it, of which the TLS layer has read `rawInput` ahead. -/
structure Transport where
  input : Bytes
  overlay : Source UInt8
  rawInput : Bytes
  direct : Source UInt8

namespace Transport

def plain (t : Transport) : Bytes := t.input ++ t.overlay.rest

/-- A read of the outer TLS connection: what is decrypted first, then the next record. -/
def readOverlay : ReadFn UInt8 Transport := fun t l =>
  if l = 0 then some ([], t)
  else if t.input ≠ [] then some (t.input.take l, { t with input := t.input.drop l })
  else
    match t.overlay.chunks, t.overlay.nonempty with
    | [], _ => none
    | r :: rs, h =>
      some (r.take l, { t with input := r.drop l, overlay := ⟨rs, Source.nonempty_tail h⟩ })

def readDirect : ReadFn UInt8 Transport := fun t l =>
  (t.direct.read l).map fun s => (s.1, { t with direct := s.2 })

end Transport

/-- The reading half of a connection. `hasInput` and `hasRawInput` tell whether the buffers of the
TLS layer are still looked at. -/
structure Reader where
  userUUID : Octets 16
  readRemainingContent : ℕ
  readRemainingPadding : ℕ
  readFilterUUID : Bool
  readLastCommand : UInt8
  toReadDirect : Bool
  directRead : Bool
  hasInput : Bool
  hasRawInput : Bool
  filter : Filter

structure ReadOut where
  data : Bytes
  err : Option Error
deriving DecidableEq

def uuidString (b : Bytes) : String :=
  let hex := fun x : UInt8 => String.ofList
    [Nat.digitChar (x.toNat / 16), Nat.digitChar (x.toNat % 16)]
  let part := fun i n => String.join ((b.drop i |>.take n).map hex)
  part 0 4 ++ "-" ++ part 4 2 ++ "-" ++ part 6 2 ++ "-" ++ part 8 2 ++ "-" ++ part 10 6

namespace Reader

def new (userUUID : Octets 16) : Reader :=
  ⟨userUUID, 0, 0, true, commandPaddingContinue, false, false, true, true, .new⟩

variable (r : Reader) (next : Reader → Transport → Option (ReadOut × Reader × Transport))

def wrapperRead : ReadFn UInt8 Transport :=
  if r.directRead then Transport.readDirect else Transport.readOverlay

variable (t : Transport) (l : ℕ)

def passThrough : ReadOut × Transport :=
  match r.wrapperRead t l with
  | none => (⟨[], some (.sentinel .eof)⟩, t)
  | some (b, t) => (⟨b, none⟩, t)

def readContent : ReadOut × Reader × Transport :=
  let (out, t) := r.passThrough t (if r.readRemainingContent < l then r.readRemainingContent else l)
  (out, { r with
    readRemainingContent := r.readRemainingContent - out.data.length
    filter := r.filter.filterTLS out.data }, t)

def skipPadding : Option Error × Reader × Transport :=
  let (skipped, t) := readFull r.wrapperRead r.readRemainingPadding r.readRemainingPadding [] t
  if skipped.length < r.readRemainingPadding then (some (.sentinel .eof), r, t)
  else (none, { r with readRemainingPadding := 0 }, t)

def readHeader : Option Error × Reader × Transport :=
  let headerUUIDLen := if r.readFilterUUID then 16 else 0
  let need := headerUUIDLen + paddingHeaderLen - 16
  let (header, t) := readFull r.wrapperRead need need [] t
  if header.length < need then
    (some (.sentinel (if header = [] then .eof else .unexpectedEOF)), r, t)
  else
    let uuid := header.take headerUUIDLen
    let fields := header.drop headerUUIDLen
    let known := !r.readFilterUUID || uuid == r.userUUID.1
    let r := { r with readFilterUUID := false }
    if !known then
      (some (.errorf s!"XTLS Vision server responded unknown UUID: {uuidString uuid}: %!w(<nil>)"),
        r, t)
    else
      (none, { r with
        readRemainingPadding := beNat ((fields.drop 3).take 2)
        readRemainingContent := beNat ((fields.drop 1).take 2)
        readLastCommand := fields.getD 0 0 }, t)

/-- The switch to direct reading: hand out what the TLS layer has buffered first. -/
def readDirectCommand : ReadOut × Reader × Transport :=
  let fromInput := if r.hasInput then t.input.take l else []
  let t := if r.hasInput then { t with input := t.input.drop l } else t
  if r.hasInput ∧ t.input ≠ [] then (⟨fromInput, none⟩, r, t)
  else
    let room := l - fromInput.length
    let fromRaw := if r.hasRawInput then t.rawInput.take room else []
    let t := if r.hasRawInput then { t with rawInput := t.rawInput.drop room } else t
    let needReturn := r.hasInput || r.hasRawInput
    let r := { r with hasInput := false, hasRawInput := r.hasRawInput && t.rawInput ≠ [] }
    let r := if r.hasRawInput then r else { r with toReadDirect := true, directRead := true }
    if needReturn then (⟨fromInput ++ fromRaw, none⟩, r, t)
    else
      let (out, t) := r.passThrough t l
      (out, r, t)

def unknownCommand (command : UInt8) : Error :=
  .errorf s!"XTLS Vision read unknown command: {command}"

/-- A read at the end of a frame, where `next` goes on with the reader as it is then. -/
def readCommand : Option (ReadOut × Reader × Transport) :=
  if r.toReadDirect then some ((r.passThrough t l).1, r, (r.passThrough t l).2)
  else if r.readLastCommand = commandPaddingContinue then
    match r.readHeader t with
    | (some err, r, t) => some (⟨[], some err⟩, r, t)
    | (none, r, t) => next r t
  else if r.readLastCommand = commandPaddingEnd then next { r with toReadDirect := true } t
  else if r.readLastCommand = commandPaddingDirect then some (r.readDirectCommand t l)
  else some (⟨[], some (unknownCommand r.readLastCommand)⟩, r, t)

def readRound : Option (ReadOut × Reader × Transport) :=
  if r.readRemainingContent > 0 then some (r.readContent t l)
  else
    match r.skipPadding t with
    | (some err, r, t) => some (⟨[], some err⟩, r, t)
    | (none, r, t) => r.readCommand next t l

/-- `read`, with a bound on how often it may call itself; `none` when the bound is used up. -/
def readLoop : ℕ → Reader → Transport → ℕ → Option (ReadOut × Reader × Transport)
  | 0, _, _, _ => none
  | fuel + 1, r, t, l => r.readRound (fun r t => readLoop fuel r t l) t l

/-- `Read` with a buffer of `l` bytes. Every header takes bytes off the stream, so their number
bounds the loop. -/
def read : Option (ReadOut × Reader × Transport) :=
  if r.toReadDirect then some ((r.passThrough t l).1, r, (r.passThrough t l).2)
  else readLoop (t.plain.length + 3) r t l

end Reader

end Outbound.Vless.Vision
