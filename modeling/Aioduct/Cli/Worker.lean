import Aioduct.Cli.SegmentMan
import Aioduct.Error
import Aioduct.Http.Uri
import Aioduct.Wire.Action
import Aioduct.Wire.Machine

/-!
# Workers

`download/worker.rs`: a worker requests the range of a piece, checks the response, writes what it
got and marks the piece.
-/

namespace Aioduct.Cli

open Wire Http Option List

variable {last expectedEnd expectedTotal total : Nat} {data : Bytes}

structure Response where
  status : StatusCode
  /-- The status as it is shown. -/
  statusText : Bytes
  headers : HeaderMap

/-- What reading the body comes upon; after the last event it is at its end. -/
inductive StreamEvent where
  | chunk (bytes : Bytes)
  | stalled (message : Bytes)
  | failed (error : Error)
  | cancelled
  | timedOut

structure Exchange where
  sent : Except Error Response
  events : List StreamEvent := []

def checkedRangeEnd (offset length : Nat) : Except Error Nat :=
  if length = 0 then throw (.other (ascii "invalid empty range request"))
  else
    match (U64.add offset length).bind (U64.sub · 1) with
    | some last => pure last
    | none => throw (.other (ascii "invalid range request"))

lemma isName_contentRange : isName (ascii "content-range") := by decide

def contentRangeHeader : HeaderName := ⟨ascii "content-range", isName_contentRange⟩

/-- `bytes 0-3/8`; the total is left out with an asterisk. -/
def parseContentRange (value : Bytes) : Option (Nat × Nat × Option Nat) := do
  let rest ← (trim isWhitespace value).dropPrefix? (ascii "bytes ")
  let (range, total) ← splitOnce (ascii "/") rest
  let (start, last) ← splitOnce (ascii "-") range
  let start ← parseUnsigned 64 (trim isWhitespace start)
  let last ← parseUnsigned 64 (trim isWhitespace last)
  if last < start then none
  else if trim isWhitespace total = ascii "*" then some (start, last, none)
  else
    let total ← parseUnsigned 64 (trim isWhitespace total)
    some (start, last, some total)

def showRange (start last : Nat) : Bytes := numeral start ++ ascii "-" ++ numeral last

def checkContentRange (range : Nat × Nat × Option Nat) (offset expectedEnd expectedTotal : Nat) :
    Except Error Unit :=
  let (start, last, total) := range
  if start ≠ offset ∨ last ≠ expectedEnd then
    throw (.other (ascii "Content-Range mismatch: expected bytes " ++
      showRange offset expectedEnd ++ ascii ", got " ++ showRange start last))
  else
    match total with
    | none => throw (.other (ascii "Content-Range missing total length"))
    | some total =>
      if total ≠ expectedTotal then
        throw (.other (ascii "Content-Range total mismatch: expected " ++ numeral expectedTotal ++
          ascii ", got " ++ numeral total))
      else if total ≤ last then
        throw (.other (ascii "Content-Range end " ++ numeral last ++
          ascii " exceeds total length " ++ numeral total))
      else pure ()

def validateContentRange (headers : HeaderMap) (offset length expectedTotal : Nat) :
    Except Error Unit := do
  let expectedEnd ← checkedRangeEnd offset length
  match headers.get contentRangeHeader with
  | none => throw (.other (ascii "missing Content-Range header"))
  | some value =>
    match value.toStr with
    | none => throw (.other HeaderValue.toStrError)
    | some text =>
      match parseContentRange text with
      | none => throw (.other (ascii "invalid Content-Range header: " ++ text))
      | some range => checkContentRange range offset expectedEnd expectedTotal

def readBody (length : Nat) (data : Bytes) : List StreamEvent → Except Error Bytes
  | .chunk bytes :: events =>
    if length ≤ (data ++ bytes).length then pure ((data ++ bytes).take length)
    else readBody length (data ++ bytes) events
  | .stalled message :: _ => throw (.other message)
  | .failed error :: _ => throw error
  | .cancelled :: _ => throw (.other (ascii "cancelled"))
  | .timedOut :: _ => throw (.other (ascii "read timeout: no data received for 30s"))
  | [] =>
    if data.length ≠ length then
      throw (.other (ascii "range response ended early: expected " ++ numeral length ++
        ascii " bytes, got " ++ numeral data.length))
    else pure data

def downloadPiece (offset length expectedTotal : Nat) (exchange : Exchange) :
    Except Error Bytes := do
  let _ ← checkedRangeEnd offset length
  let response ← exchange.sent
  if response.status ≠ 206 then
    throw (.other (ascii "range request returned " ++ response.statusText ++
      ascii "; expected 206 Partial Content"))
  else
    validateContentRange response.headers offset length expectedTotal
    readBody length [] exchange.events

def Response.contentRange (self : Response) : Option (Nat × Nat × Option Nat) :=
  (self.headers.get contentRangeHeader).bind fun value => value.toStr.bind parseContentRange

def bodyBytes : List StreamEvent → Bytes
  | [] => []
  | .chunk bytes :: events => bytes ++ bodyBytes events
  | _ :: events => bodyBytes events

variable {offset length : Nat}

lemma checkedRangeEnd_eq_ok (h : checkedRangeEnd offset length = .ok last) :
    last = offset + length - 1 := by
  unfold checkedRangeEnd at h
  split_ifs at h
  split at h
  next hl =>
    cases h
    obtain ⟨total, ha, hs⟩ := bind_eq_some_iff.mp hl
    simp only [U64.add, ite_none_right_eq_some, some.injEq] at ha
    simp only [U64.sub, ite_none_right_eq_some, some.injEq] at hs
    omega
  · cases h

lemma checkContentRange_eq_ok {range : Nat × Nat × Option Nat}
    (h : checkContentRange range offset expectedEnd expectedTotal = .ok ()) :
    range = (offset, expectedEnd, some expectedTotal) := by
  obtain ⟨start, last, total⟩ := range
  unfold checkContentRange at h
  simp only at h
  split at h
  · cases h
  rename_i hr
  simp only [ne_eq, not_or, Decidable.not_not] at hr
  obtain ⟨rfl, rfl⟩ := hr
  split at h
  · cases h
  split at h
  · cases h
  next ht =>
    rw [Decidable.not_not.mp ht]

lemma validateContentRange_eq_ok {response : Response}
    (h : validateContentRange response.headers offset length expectedTotal = .ok ()) :
    response.contentRange = some (offset, offset + length - 1, some expectedTotal) := by
  obtain ⟨last, hl, h⟩ := bind_eq_ok.mp h
  rw [← checkedRangeEnd_eq_ok hl]
  split at h
  · cases h
  rename_i value hv
  split at h
  · cases h
  rename_i text ht
  split at h
  · cases h
  next range hr =>
    rw [← checkContentRange_eq_ok h]
    simp [Response.contentRange, hv, ht, hr]

lemma readBody_eq_ok {result : Bytes} {events : List StreamEvent}
    (h : readBody length data events = .ok result) :
    result = (data ++ bodyBytes events).take length ∧ result.length = length := by
  induction events generalizing data with
  | nil =>
    unfold readBody at h
    split_ifs at h with hlen
    cases h
    rw [ne_eq, Decidable.not_not] at hlen
    simp [bodyBytes, ← hlen]
  | cons event events ih =>
    cases event with
    | chunk bytes =>
      unfold readBody at h
      split at h
      next he =>
        cases h
        refine ⟨?_, by rw [length_take, Nat.min_eq_left he]⟩
        rw [bodyBytes, ← append_assoc, take_append_of_le_length he]
      · obtain ⟨hr, hlen⟩ := ih h
        exact ⟨by rw [hr, bodyBytes, append_assoc], hlen⟩
    | stalled message => cases h
    | failed error => cases h
    | cancelled => cases h
    | timedOut => cases h

/-- The exchange is a 206 response with the range that was asked for. -/
structure FromRange (offset length total : Nat) (exchange : Exchange) (data : Bytes) : Prop where
  response : ∃ response, exchange.sent = .ok response ∧ response.status = 206 ∧
    response.contentRange = some (offset, offset + length - 1, some total)
  body : data = (bodyBytes exchange.events).take length
  length : data.length = length

lemma downloadPiece_eq_ok {exchange : Exchange}
    (h : downloadPiece offset length total exchange = .ok data) :
    FromRange offset length total exchange data := by
  obtain ⟨last, -, h⟩ := bind_eq_ok.mp h
  obtain ⟨response, hs, h⟩ := bind_eq_ok.mp h
  split_ifs at h with hsta
  obtain ⟨_, hr, hb⟩ := bind_eq_ok.mp h
  obtain ⟨hd, hlen⟩ := readBody_eq_ok hb
  exact ⟨⟨response, hs, Decidable.not_not.mp hsta, validateContentRange_eq_ok hr⟩, hd, hlen⟩

structure Job (layout : Layout) where
  piece : Fin layout.totalPieces
  token : Option Nat

inductive Worker (layout : Layout) where
  | start
  | choosing
  | chosen (piece : Fin layout.totalPieces)
  | attempt (job : Job layout) (retries : Nat)
  | downloading (job : Job layout) (retries : Nat)
  | received (job : Job layout) (exchange : Exchange) (data : Bytes)
  | writing (job : Job layout) (exchange : Exchange) (data : Bytes)
  | written (job : Job layout)
  | failed (job : Job layout) (retries : Nat) (error : Error)
  | retried (job : Job layout) (retries : Nat) (error : Error)
  | done (result : Except Error Unit)

structure Write (layout : Layout) where
  piece : Fin layout.totalPieces
  exchange : Exchange
  data : Bytes
  count : Nat

structure OutputFile where
  length : Nat
  byte : Nat → UInt8

namespace OutputFile

def empty : OutputFile := ⟨0, fun _ => 0⟩

/-- `set_len`: what is added is zero. -/
def setLen (self : OutputFile) (length : Nat) : OutputFile where
  length := length
  byte position := if position < self.length then self.byte position else 0

/-- The `write_all_at` of Unix; a short `seek_write` of Windows is not told from a whole one. -/
def writeAt (self : OutputFile) (offset : Nat) (data : Bytes) : OutputFile where
  length := max self.length (offset + data.length)
  byte position :=
    if offset ≤ position then (data[position - offset]?).getD (self.byte position)
    else self.byte position

end OutputFile

/-- What a worker meets outside: the server's answer, and what becomes of its write. -/
structure Input where
  exchange : Exchange
  writeResult : Except Error Unit := .ok ()
  /-- How far a failed write has come. -/
  reached : Nat := 0

structure Session (layout : Layout) where
  segments : SegmentMan layout
  cancel : Bool := false
  workers : List (Worker layout)
  file : OutputFile
  writes : List (Write layout) := []

namespace Session

variable {layout : Layout}

def isComplete (self : Session layout) (piece : Nat) : Bool :=
  self.segments.storage.isComplete piece

variable (self : Session layout)

def pieceCancelled (job : Job layout) : Bool :=
  match job.token with
  | some token => self.segments.endgame.isCancelled token
  | none => self.cancel

def setWorker (i : Nat) (worker : Worker layout) : Session layout :=
  { self with workers := self.workers.set i worker }

def setSegments (segments : SegmentMan layout) : Session layout :=
  { self with segments := segments }

def write (job : Job layout) (exchange : Exchange) (data : Bytes) (count : Nat) : Session layout :=
  { self with
    file := self.file.writeAt (layout.offset job.piece) (data.take count)
    writes := self.writes ++ [⟨job.piece, exchange, data, count⟩] }

def choosePiece (i : Nat) : Session layout :=
  let (piece, segments) := self.segments.nextPiece
  (self.setSegments segments).setWorker i
    (match piece with
    | some piece => .chosen piece
    | none => .done (.ok ()))

def register (i : Nat) (piece : Fin layout.totalPieces) : Session layout :=
  if self.segments.endgame.active then
    let (token, endgame) := self.segments.endgame.registerWorker piece
    (self.setSegments { self.segments with endgame := endgame }).setWorker i
      (.attempt ⟨piece, some token⟩ 0)
  else self.setWorker i (.attempt ⟨piece, none⟩ 0)

def writeStep (i : Nat) (job : Job layout) (exchange : Exchange) (data : Bytes) (input : Input) :
    Session layout :=
  match input.writeResult with
  | .ok () => (self.write job exchange data data.length).setWorker i (.written job)
  | .error error => (self.write job exchange data input.reached).setWorker i (.done (.error error))

def failStep (message : Error → Bytes) (self : Session layout) (i : Nat) (job : Job layout)
    (retries : Nat) (error : Error) : Session layout :=
  if self.pieceCancelled job then self.setWorker i .start
  else if self.cancel then
    (self.setSegments (self.segments.failPiece job.piece)).setWorker i (.done (.ok ()))
  else
    (self.setSegments (self.segments.recordPieceRetry job.piece (message error))).setWorker i
      (.retried job (retries + 1) error)

/-- One step of a worker; `message` is how an error is shown. -/
def workerStep (maxRetries : Nat) (message : Error → Bytes) (self : Session layout) (i : Nat)
    (input : Input) : Worker layout → Session layout
  | .start => self.setWorker i (if self.cancel then .done (.ok ()) else .choosing)
  | .choosing => self.choosePiece i
  | .chosen piece => self.register i piece
  | .attempt job retries =>
    self.setWorker i (if self.isComplete job.piece then .start else .downloading job retries)
  | .downloading job retries =>
    self.setWorker i
      (match downloadPiece (layout.offset job.piece) (layout.length job.piece)
        layout.totalLength.toNat input.exchange with
      | .ok data => .received job input.exchange data
      | .error error => .failed job retries error)
  | .received job exchange data =>
    self.setWorker i (if self.isComplete job.piece then .start else .writing job exchange data)
  | .writing job exchange data => self.writeStep i job exchange data input
  | .written job =>
    (self.setSegments (self.segments.completePiece job.piece)).setWorker i .start
  | .failed job retries error => self.failStep message i job retries error
  | .retried job retries error =>
    if maxRetries ≤ retries then
      (self.setSegments (self.segments.markPieceFailed job.piece (message error))).setWorker i
        (.done (.error error))
    else self.setWorker i (.attempt job retries)
  | .done _ => self

end Session

end Aioduct.Cli
