import Aioduct.Wire.Lines
import Aioduct.Wire.Utf8
import Aioduct.Wire.Decimal

/-!
# The event stream decoder

`sse/mod.rs`. The buffer is a byte string that the caller extends at its end and the decoder
shortens at its front.
-/

namespace Aioduct.Sse

open Wire

structure SseMessage where
  event : Bytes
  data : Bytes
  lastEventId : Bytes

inductive SseEvent where
  | message (message : SseMessage)
  | retry (interval : UInt64)

inductive SseError where
  | sseEventTooLarge (limitBytes : Nat)

structure EventBoundary where
  blockEnd : Nat
  consume : Nat

variable (bytes : Bytes)

/-- The end of the line ending at `pos` and the start of what follows it. -/
def consumeLineEnding (pos : Nat) : Nat × Nat :=
  if bytes.length ≤ pos then (pos, pos)
  else if bytes.getD pos 0 = byte '\r' then
    if pos + 1 < bytes.length ∧ bytes.getD (pos + 1) 0 = byte '\n' then (pos + 2, pos + 2)
    else (pos + 1, pos + 1)
  else if bytes.getD pos 0 = byte '\n' then (pos + 1, pos + 1)
  else (pos, pos)

/-- The loop of `find_event_boundary_from`; every round passes a line ending. -/
def findEventBoundaryLoop (bytes : Bytes) : Nat → Nat → Option EventBoundary
  | 0, _ => none
  | fuel + 1, pos =>
    if bytes.length ≤ pos then none
    else
      match findNewline (bytes.drop pos) with
      | none => none
      | some i =>
        let blockEnd := pos + i
        let (lineEnd, nextStart) := consumeLineEnding bytes blockEnd
        if bytes.length ≤ nextStart then none
        else if isNewline (bytes.getD nextStart 0) then
          some ⟨blockEnd, (consumeLineEnding bytes nextStart).2⟩
        else findEventBoundaryLoop bytes fuel lineEnd

def findEventBoundaryFrom (pos : Nat) : Option EventBoundary :=
  findEventBoundaryLoop bytes (bytes.length + 1) (min pos bytes.length)

def findEventBoundary : Option EventBoundary := findEventBoundaryFrom bytes 0

def exceedsPayloadLimit (limit : Nat) : Bool :=
  let effectiveLen :=
    if (ascii "\r\n").isSuffixOf bytes then bytes.length - 2
    else if (ascii "\r").isSuffixOf bytes || (ascii "\n").isSuffixOf bytes then bytes.length - 1
    else bytes.length
  limit < effectiveLen

def nextLineStr (s : Bytes) : Bytes × Bytes :=
  match findNewline s with
  | some i =>
    if i + 1 < s.length ∧ s.getD i 0 = byte '\r' ∧ s.getD (i + 1) 0 = byte '\n' then
      (s.take i, s.drop (i + 2))
    else (s.take i, s.drop (i + 1))
  | none => (s, [])

structure BlockFields where
  eventType : Option Bytes := none
  dataLines : List Bytes := []
  id : Option Bytes := none
  retry : Option UInt64 := none
  hasDataField : Bool := false

def parseInterval (value : Bytes) : Option UInt64 := (parseBelow (2 ^ 64) value).map UInt64.ofNat

def splitOnceColon (line : Bytes) : Option (Bytes × Bytes) :=
  if line.contains (byte ':') then
    some (line.takeWhile (· != byte ':'), (line.dropWhile (· != byte ':')).tail)
  else none

def stripLeadingSpace (value : Bytes) : Bytes :=
  match value with
  | b :: rest => if b = byte ' ' then rest else value
  | [] => []

def BlockFields.addLine (self : BlockFields) (line : Bytes) : BlockFields :=
  if line.isEmpty then self
  else if line.head? = some (byte ':') then self
  else
    match splitOnceColon line with
    | some (field, value) =>
      let value := stripLeadingSpace value
      if field = ascii "event" then { self with eventType := some value }
      else if field = ascii "data" then
        { self with hasDataField := true, dataLines := self.dataLines ++ [value] }
      else if field = ascii "id" ∧ !value.contains 0 then { self with id := some value }
      else if field = ascii "retry" ∧ !value.isEmpty ∧ value.all isDigit then
        { self with retry := parseInterval value }
      else self
    | none =>
      if line = ascii "data" then
        { self with hasDataField := true, dataLines := self.dataLines ++ [[]] }
      else if line = ascii "event" then { self with eventType := some [] }
      else if line = ascii "id" then { self with id := some [] }
      else self

def parseBlockLoop : Nat → BlockFields → Bytes → BlockFields
  | 0, fields, _ => fields
  | fuel + 1, fields, remaining =>
    if remaining.isEmpty then fields
    else
      let (line, rest) := nextLineStr remaining
      parseBlockLoop fuel (fields.addLine line) rest

/-- The line loop of `decode_impl`; every round takes at least one byte. -/
def parseBlock (block : Bytes) : BlockFields := parseBlockLoop block.length {} block

structure DrainingOversized where
  lineStart : Bool := false

/-- The loop of `DrainingOversized::scan`: the state, the boundary and how much was passed. -/
def DrainingOversized.scanLoop (buf : Bytes) :
    Nat → DrainingOversized → Nat → DrainingOversized × Option Nat × Nat
  | 0, self, i => (self, none, i)
  | fuel + 1, self, i =>
    if buf.length ≤ i then (self, none, i)
    else if buf.getD i 0 = byte '\r' ∧ i + 1 = buf.length then (self, none, i)
    else
      let width := endingWidth (buf.drop i)
      if width = 0 then scanLoop buf fuel { self with lineStart := false } (i + 1)
      else if self.lineStart then (self, some (i + width), i + width)
      else scanLoop buf fuel { self with lineStart := true } (i + width)

def DrainingOversized.scan (self : DrainingOversized) (buf : Bytes) :
    DrainingOversized × Option Nat × Nat :=
  scanLoop buf buf.length self 0

structure SseDecoder where
  lastEventId : Bytes := []
  stagedLastEventId : Bytes := []
  maxPayloadSize : Nat
  bomStripped : Bool := false
  draining : Option DrainingOversized := none
  scanPos : Nat := 0

/-- What a call returns, with the decoder and the buffer afterwards. -/
abbrev Decoded := Option (Except SseError SseEvent) × SseDecoder × Bytes

def bom : Bytes := [0xEF, 0xBB, 0xBF]

namespace SseDecoder

def withMaxPayloadSize (max : Nat) : SseDecoder := { maxPayloadSize := max }

def new : SseDecoder := withMaxPayloadSize (512 * 1024)

variable (self : SseDecoder)

def stripBom (buf : Bytes) : SseDecoder × Bytes :=
  if self.bomStripped || buf.isEmpty then (self, buf)
  else if buf.length < 3 then
    if !buf.isPrefixOf bom then ({ self with bomStripped := true }, buf) else (self, buf)
  else if buf.take 3 = bom then ({ self with bomStripped := true }, buf.drop 3)
  else ({ self with bomStripped := true }, buf)

def tooLarge : Option (Except SseError SseEvent) :=
  some (.error (.sseEventTooLarge self.maxPayloadSize))

def stage : Option Bytes → SseDecoder
  | some id => { self with stagedLastEventId := id }
  | none => self

def commit : SseDecoder := { self with lastEventId := self.stagedLastEventId }

/-- The main loop of `decode_impl`; every further round has passed a block. -/
def decodeLoop : Nat → SseDecoder → Bytes → Decoded
  | 0, self, buf => (none, self, buf)
  | fuel + 1, self, buf =>
    match findEventBoundaryFrom buf self.scanPos with
    | none =>
      if 0 < self.maxPayloadSize ∧ exceedsPayloadLimit buf self.maxPayloadSize then
        let (state, boundary, consumed) := DrainingOversized.scan {} buf
        let buf := buf.drop consumed
        if boundary.isSome then (self.tooLarge, { self with draining := none }, buf)
        else (self.tooLarge, { self with draining := some state }, buf)
      else (none, { self with scanPos := buf.length - 2 }, buf)
    | some boundary =>
      let self := { self with scanPos := 0 }
      if 0 < self.maxPayloadSize ∧ self.maxPayloadSize < boundary.blockEnd then
        (self.tooLarge, self, buf.drop boundary.consume)
      else
        let fields := parseBlock (Utf8.lossy (buf.take boundary.blockEnd))
        let buf := buf.drop boundary.consume
        let self := self.stage fields.id
        match fields.retry, fields.hasDataField, fields.eventType, fields.id with
        | some interval, false, none, none => (some (.ok (.retry interval)), self.commit, buf)
        | some interval, false, _, _ => (some (.ok (.retry interval)), self.commit, buf)
        | none, false, _, _ => decodeLoop fuel self.commit buf
        | _, true, _, _ =>
          let self := self.commit
          let data := (ascii "\n").intercalate fields.dataLines
          let event := fields.eventType.getD (ascii "message")
          (some (.ok (.message ⟨event, data, self.lastEventId⟩)), self, buf)

def decode (buf : Bytes) : Decoded :=
  let (self, buf) := self.stripBom buf
  match self.draining with
  | some state =>
    let (state, boundary, consumed) := state.scan buf
    let buf := buf.drop consumed
    if boundary.isSome then
      decodeLoop (buf.length + 1) { self with draining := none, scanPos := 0 } buf
    else (none, { self with draining := some state }, buf)
  | none => decodeLoop (buf.length + 1) self buf

end SseDecoder

end Aioduct.Sse
