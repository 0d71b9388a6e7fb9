import Aioduct.Cli.Worker

/-!
# Segmented downloads

`download_segmented` of `download/engine.rs`: workers that share a file and the marks of its pieces,
with their steps in any order.
-/

namespace Aioduct.Cli

open Wire PieceStorage List

variable {position size : Nat} {exchange : Exchange} {data : Bytes} {layout : Layout}

/-- A worker goes on, the download is cancelled, or the task of a worker breaks down. -/
inductive SessionAction where
  | advance (worker : Nat) (input : Input)
  | cancel
  | panic (worker : Nat) (error : Error)

namespace Session

variable (maxRetries : Nat) (message : Error → Bytes)

def step (self : Session layout) : SessionAction → Session layout
  | .advance i input =>
    match self.workers[i]? with
    | some worker => self.workerStep maxRetries message i input worker
    | none => self
  | .cancel => { self with cancel := true }
  | .panic i error =>
    match self.workers[i]? with
    | some (.done _) | none => self
    | some _ => self.setWorker i (.done (.error error))

def run (self : Session layout) (actions : List SessionAction) : Session layout :=
  actions.foldl (step maxRetries message) self

end Session

namespace Write

variable (self : Write layout)

def Valid : Prop :=
  downloadPiece (layout.offset self.piece) (layout.length self.piece) layout.totalLength.toNat
    self.exchange = .ok self.data

def Whole : Prop := self.data.length ≤ self.count

def Put (position : Nat) (b : UInt8) : Prop :=
  layout.offset self.piece ≤ position ∧
    (self.data.take self.count)[position - layout.offset self.piece]? = some b

/-- The bytes come from a 206 response for the range of the piece. -/
def FromRange (self : Write layout) : Prop :=
  Cli.FromRange (layout.offset self.piece) (layout.length self.piece) layout.totalLength.toNat
    self.exchange self.data

lemma Valid.fromRange {self : Write layout} (h : self.Valid) : self.FromRange :=
  downloadPiece_eq_ok h

lemma Valid.exists_put {self : Write layout} (h : self.Valid) (hw : self.Whole)
    (hs : layout.offset self.piece ≤ position)
    (he : position < layout.offset self.piece + layout.length self.piece) :
    ∃ b, self.Put position b := by
  have hlen := h.fromRange.length
  have hlt : position - layout.offset self.piece < self.data.length := by omega
  refine ⟨self.data[position - layout.offset self.piece], hs, ?_⟩
  rw [take_of_length_le hw, List.getElem?_eq_getElem hlt]

lemma Valid.covers {self : Write layout} (h : self.Valid) {b : UInt8} (hp : self.Put position b) :
    layout.Covers self.piece position := by
  have hlen := h.fromRange.length
  have hlt := (List.getElem?_eq_some_iff.mp hp.2).1
  rw [length_take] at hlt
  exact ⟨hp.1, by omega⟩

end Write

def Written (writes : List (Write layout)) (piece : Fin layout.totalPieces) : Prop :=
  ∃ w ∈ writes, w.piece = piece ∧ w.Whole

variable {writes : List (Write layout)}

lemma Written.append {piece : Fin layout.totalPieces}
    (h : Written writes piece) (w : Write layout) : Written (writes ++ [w]) piece := by
  obtain ⟨w', hw', hp⟩ := h
  exact ⟨w', mem_append_left _ hw', hp⟩

/-- What a worker carries was downloaded for its piece, which was not marked at first, and is written
before the piece is marked. -/
def Worker.Sound (initial : PieceStorage layout) (writes : List (Write layout)) :
    Worker layout → Prop
  | .received job exchange data =>
    downloadPiece (layout.offset job.piece) (layout.length job.piece) layout.totalLength.toNat
      exchange = .ok data
  | .writing job exchange data => initial.isComplete job.piece = false ∧
    downloadPiece (layout.offset job.piece) (layout.length job.piece) layout.totalLength.toNat
      exchange = .ok data
  | .written job => Written writes job.piece
  | _ => True

variable {worker : Worker layout} {initial : PieceStorage layout}

lemma Worker.Sound.append (h : worker.Sound initial writes)
    (w : Write layout) : worker.Sound initial (writes ++ [w]) := by
  cases worker with
  | written job => exact Written.append h w
  | received job exchange data => exact h
  | writing job exchange data => exact h
  | _ => trivial

/-- Each piece that is marked was marked at first or is written, not both, and the file has what was
written last over what was in it before. -/
structure Session.Sound (initial : PieceStorage layout) (before : OutputFile)
    (s : Session layout) : Prop where
  marked : ∀ piece : Fin layout.totalPieces, s.isComplete piece = true →
    initial.isComplete piece = true ∨ Written s.writes piece
  writes : ∀ w ∈ s.writes, w.Valid
  workers : ∀ worker ∈ s.workers, worker.Sound initial s.writes
  file : ∀ position, (∃ w ∈ s.writes, w.Put position (s.file.byte position)) ∨
    s.file.byte position = before.byte position ∧ ∀ w ∈ s.writes, ∀ b, ¬ w.Put position b
  kept : ∀ piece : Fin layout.totalPieces, initial.isComplete piece = true →
    s.isComplete piece = true
  new : ∀ w ∈ s.writes, initial.isComplete w.piece = false

namespace Session.Sound

variable {before : OutputFile} {s : Session layout}

section

variable (h : Sound initial before s)

include h

variable (i : Nat)

lemma setWorker (hw : worker.Sound initial s.writes) : Sound initial before (s.setWorker i worker) := by
  refine ⟨h.marked, h.writes, fun other ho => ?_, h.file, h.kept, h.new⟩
  rcases mem_or_eq_of_mem_set ho with hm | rfl
  · exact h.workers other hm
  · exact hw

lemma setSegments {segments : SegmentMan layout}
    (hs : segments.storage.bitfield = s.segments.storage.bitfield) :
    Sound initial before (s.setSegments segments) := by
  have hc : ∀ piece, (s.setSegments segments).isComplete piece = s.isComplete piece := fun piece =>
    congrArg (·.isSet piece) hs
  exact ⟨fun piece hp => h.marked piece (hc piece ▸ hp), h.writes, h.workers, h.file,
    fun piece hp => (hc piece).trans (h.kept piece hp), h.new⟩

lemma completePiece {piece : Fin layout.totalPieces} (hw : Written s.writes piece) :
    Sound initial before (s.setSegments (s.segments.completePiece piece)) := by
  have hc : ∀ other, (s.setSegments (s.segments.completePiece piece)).isComplete other =
      (other == piece.val || s.isComplete other) :=
    s.segments.storage.isComplete_markComplete piece
  refine ⟨fun other ho => ?_, h.writes, h.workers, h.file, fun other ho => ?_, h.new⟩
  swap
  · rw [hc, h.kept other ho, Bool.or_true]
  rw [hc, Bool.or_eq_true, beq_iff_eq] at ho
  rcases ho with heq | hb
  · exact .inr (Fin.ext heq ▸ hw)
  · exact h.marked other hb

lemma write {job : Job layout}
    (hd : downloadPiece (layout.offset job.piece) (layout.length job.piece)
      layout.totalLength.toNat exchange = .ok data)
    (hnew : initial.isComplete job.piece = false) (count : Nat) :
    Sound initial before (s.write job exchange data count) := by
  refine ⟨fun piece hp => ?_, fun w hw => ?_, fun worker hwor => ?_, fun position => ?_, h.kept,
    fun w hw => ?_⟩
  rotate_right
  · rcases mem_append.mp hw with hm | hm
    · exact h.new w hm
    · rw [mem_singleton.mp hm]
      exact hnew
  · exact (h.marked piece hp).imp_right fun hwri => hwri.append _
  · rcases mem_append.mp hw with hm | hm
    · exact h.writes w hm
    · rw [mem_singleton.mp hm]
      exact hd
  · exact (h.workers worker hwor).append _
  -- the new write decides about its positions, the others are as before
  simp only [Session.write, OutputFile.writeAt]
  let w : Write layout := ⟨job.piece, exchange, data, count⟩
  by_cases hput : ∃ b, w.Put position b
  · obtain ⟨b, hs, hbyt⟩ := hput
    refine .inl ⟨w, mem_append_right _ (mem_singleton_self w), ?_⟩
    rw [if_pos hs, show (data.take count)[position - layout.offset job.piece]? = some b from hbyt]
    exact ⟨hs, hbyt⟩
  have hsam : (if layout.offset job.piece ≤ position then
      ((data.take count)[position - layout.offset job.piece]?).getD (s.file.byte position)
      else s.file.byte position) = s.file.byte position := by
    split
    next hs =>
      cases hbyt : (data.take count)[position - layout.offset job.piece]? with
      | none => rfl
      | some b => exact absurd ⟨b, hs, hbyt⟩ hput
    · rfl
  rw [hsam]
  rcases h.file position with ⟨w', hw', hbyt⟩ | ⟨hbef, hnone⟩
  · exact .inl ⟨w', mem_append_left _ hw', hbyt⟩
  refine .inr ⟨hbef, fun w' hw' b hb => ?_⟩
  rcases mem_append.mp hw' with hm | hm
  · exact hnone w' hm b hb
  · rw [mem_singleton.mp hm] at hb
    exact hput ⟨b, hb⟩

lemma writeStep {job : Job layout}
    (hd : downloadPiece (layout.offset job.piece) (layout.length job.piece)
      layout.totalLength.toNat exchange = .ok data)
    (hnew : initial.isComplete job.piece = false) (input : Input) :
    Sound initial before (s.writeStep i job exchange data input) := by
  unfold Session.writeStep
  split
  · refine (h.write hd hnew data.length).setWorker i ?_
    exact ⟨_, mem_append_right _ (mem_singleton_self _), rfl, le_rfl⟩
  · exact (h.write hd hnew input.reached).setWorker i trivial

lemma choosePiece : Sound initial before (s.choosePiece i) := by
  refine (h.setSegments s.segments.bitfield_nextPiece).setWorker i ?_
  split <;> trivial

lemma register (piece : Fin layout.totalPieces) : Sound initial before (s.register i piece) := by
  unfold Session.register
  split
  · have hs : Sound initial before (s.setSegments
        { s.segments with endgame := (s.segments.endgame.registerWorker piece).2 }) :=
      h.setSegments rfl
    exact hs.setWorker i trivial
  · exact h.setWorker i trivial

lemma failStep (message : Error → Bytes) (i : Nat) (job : Job layout) (retries : Nat)
    (error : Error) : Sound initial before (s.failStep message i job retries error) := by
  unfold Session.failStep
  split
  · exact h.setWorker i trivial
  split
  · have hs : Sound initial before (s.setSegments (s.segments.failPiece job.piece)) :=
      h.setSegments rfl
    exact hs.setWorker i trivial
  have hs : Sound initial before
      (s.setSegments (s.segments.recordPieceRetry job.piece (message error))) :=
    h.setSegments rfl
  exact hs.setWorker i trivial

end

section

variable (h : Sound initial before s) (maxRetries : Nat) (message : Error → Bytes)

include h

lemma workerStep (i : Nat) (input : Input) (hw : worker.Sound initial s.writes) :
    Sound initial before (s.workerStep maxRetries message i input worker) := by
  cases worker with
  | start | attempt job retries => exact h.setWorker i (by split <;> trivial)
  | choosing => exact h.choosePiece i
  | chosen piece => exact h.register i piece
  | downloading job retries =>
    refine h.setWorker i ?_
    split
    next data hd =>
      exact hd
    · trivial
  | received job exchange data =>
    refine h.setWorker i ?_
    split
    · trivial
    next hc => exact ⟨Bool.eq_false_iff.mpr fun hi => hc (h.kept job.piece hi), hw⟩
  | writing job exchange data => exact h.writeStep i hw.2 hw.1 input
  | written job => exact (h.completePiece hw).setWorker i trivial
  | failed job retries error => exact h.failStep message i job retries error
  | retried job retries error =>
    simp only [Session.workerStep]
    split
    · have hs : Sound initial before
          (s.setSegments (s.segments.markPieceFailed job.piece (message error))) :=
        h.setSegments rfl
      exact hs.setWorker i trivial
    · exact h.setWorker i trivial
  | done result => exact h

lemma step (action : SessionAction) : Sound initial before (s.step maxRetries message action) := by
  cases action with
  | advance i input =>
    simp only [Session.step]
    split
    next worker hw =>
      exact h.workerStep maxRetries message i input (h.workers worker (mem_of_getElem? hw))
    · exact h
  | cancel => exact ⟨h.marked, h.writes, h.workers, h.file, h.kept, h.new⟩
  | panic i error =>
    simp only [Session.step]
    split
    · exact h
    · exact h
    · exact h.setWorker i trivial

lemma run (actions : List SessionAction) :
    Sound initial before (s.run maxRetries message actions) := by
  induction actions generalizing s with
  | nil => exact h
  | cons action actions ih => exact ih (h.step maxRetries message action)

end

end Session.Sound

inductive OutputEntry where
  | missing
  | other
  | file (content : OutputFile)

structure SegmentedRun where
  splitCount : Nat
  numWorkers : Nat
  maxRetries : Nat
  message : Error → Bytes
  outputName : Bytes
  output : OutputEntry
  /-- Why the output cannot be looked at. -/
  osError : Bytes
  /-- What becomes of making the directory and opening the file. -/
  opened : Except Error Unit
  actions : List SessionAction
  synced : Except Error Unit

/-- How far a download has come; there is a result once it has returned. -/
structure Outcome (layout : Layout) where
  storage : PieceStorage layout
  output : OutputEntry
  writes : List (Write layout)
  result : Option (Except Error Nat)

namespace OutputEntry

/-- `DiskWriter::open_or_create`. -/
def openOrCreate (self : OutputEntry) (length : Nat) : OutputFile :=
  match self with
  | .file content => content.setLen length
  | _ => OutputFile.empty.setLen length

def validateMetadata (self : OutputEntry) (name osError : Bytes) (expectedSize : Nat) :
    Except Bytes Unit :=
  match self with
  | .missing =>
    throw (ascii "download output is not accessible: " ++ name ++ ascii " (" ++ osError ++
      ascii ")")
  | .other => throw (ascii "download output is not a file: " ++ name)
  | .file content =>
    if content.length ≠ expectedSize then
      throw (ascii "download output size mismatch: expected " ++ numeral expectedSize ++
        ascii " bytes, got " ++ numeral content.length)
    else pure ()

end OutputEntry

namespace Session

def results (self : Session layout) : Option (List (Except Error Unit)) :=
  self.workers.mapM fun
    | .done result => some result
    | _ => none

def firstError (results : List (Except Error Unit)) : Option Error :=
  results.findSome? fun
    | .error error => some error
    | .ok () => none

def finish (self : Session layout) (synced : Except Error Unit) : Option (Except Error Nat) :=
  self.results.map fun results =>
    match firstError results with
    | some error => .error error
    | none => do
      synced
      if self.segments.storage.allComplete then pure layout.totalLength.toNat
      else throw (.other (ascii "download incomplete"))

lemma allComplete_of_finish {self : Session layout} {synced : Except Error Unit}
    (h : self.finish synced = some (.ok size)) : self.segments.storage.allComplete := by
  obtain ⟨results, -, h⟩ := Option.map_eq_some_iff.mp h
  split at h
  · cases h
  obtain ⟨_, -, h⟩ := bind_eq_ok.mp h
  split at h
  · assumption
  · cases h

end Session

namespace SegmentedRun

def start (self : SegmentedRun) (storage : PieceStorage layout) : Session layout where
  segments := .new storage self.splitCount
  workers := List.replicate self.numWorkers .start
  file := self.output.openOrCreate layout.totalLength.toNat

variable (self : SegmentedRun) (storage : PieceStorage layout)

def session : Session layout :=
  (self.start storage).run self.maxRetries self.message self.actions

def downloadSegmented : Outcome layout :=
  if storage.allComplete then
    { storage := storage
      output := self.output
      writes := []
      result := some
        (match self.output.validateMetadata self.outputName self.osError
          layout.totalLength.toNat with
        | .ok () => .ok layout.totalLength.toNat
        | .error message => .error (.other message)) }
  else
    match self.opened with
    | .error error =>
      { storage := storage, output := self.output, writes := [], result := some (.error error) }
    | .ok () =>
      let session := self.session storage
      { storage := session.segments.storage
        output := .file session.file
        writes := session.writes
        result := session.finish self.synced }

lemma session_sound :
    (self.session storage).Sound storage (self.output.openOrCreate layout.totalLength.toNat) := by
  apply Session.Sound.run
  refine ⟨fun piece hp => .inl hp, fun w hw => absurd hw not_mem_nil,
    fun worker hwor => ?_, fun position => ?_, fun piece hp => hp,
    fun w hw => absurd hw not_mem_nil⟩
  · rw [eq_of_mem_replicate hwor]
    trivial
  · exact .inr ⟨rfl, fun w hw => absurd hw not_mem_nil⟩

end SegmentedRun

/-- A piece is marked only when it was written whole from a 206 response for its range, and a
download that succeeds has written each byte from such a response. -/
structure Outcome.Validated (outcome : Outcome layout) : Prop where
  marked : ∀ piece : Fin layout.totalPieces, outcome.storage.isComplete piece = true →
    ∃ w ∈ outcome.writes, w.piece = piece ∧ w.FromRange ∧ w.Whole
  succeeded : ∀ size, outcome.result = some (.ok size) →
    (∀ piece : Fin layout.totalPieces, outcome.storage.isComplete piece = true) ∧
      ∃ content, outcome.output = .file content ∧
        ∀ position < layout.totalLength.toNat,
          ∃ w ∈ outcome.writes, w.FromRange ∧ w.Put position (content.byte position)

namespace SegmentedRun

lemma session_validated (self : SegmentedRun) (hpie : 0 < layout.totalPieces) :
    let session := self.session (.new layout)
    (Outcome.mk session.segments.storage (.file session.file) session.writes
      (session.finish self.synced)).Validated := by
  intro session
  have hs := self.session_sound (.new layout)
  have hm : ∀ piece : Fin layout.totalPieces, session.isComplete piece →
      ∃ w ∈ session.writes, w.piece = piece ∧ w.Whole := by
    intro piece hp
    rcases hs.marked piece hp with hi | hwri
    · rw [isComplete, new, BitfieldMan.isSet_new] at hi
      cases hi
    · exact hwri
  refine ⟨fun piece hp => ?_, fun size hsiz => ?_⟩
  · obtain ⟨w, hw, heq, hwho⟩ := hm piece hp
    exact ⟨w, hw, heq, (hs.writes w hw).fromRange, hwho⟩
  have hall := (allComplete_iff _).mp (Session.allComplete_of_finish hsiz)
  refine ⟨fun piece => hall piece piece.isLt, session.file, rfl, fun position hpos => ?_⟩
  obtain ⟨index, hidx, hsta, he⟩ := Layout.exists_piece hpie hpos
  obtain ⟨w, hw, heq, hwho⟩ := hm ⟨index, hidx⟩ (hall index hidx)
  have hput : ∃ b, w.Put position b := by
    apply (hs.writes w hw).exists_put hwho
    · rw [heq]
      exact hsta
    · rw [heq]
      exact he
  -- the byte in the file is of the write that was last there
  rcases hs.file position with ⟨w', hw', hbyt⟩ | ⟨-, hnone⟩
  · exact ⟨w', hw', (hs.writes w' hw').fromRange, hbyt⟩
  · obtain ⟨b, hb⟩ := hput
    exact absurd hb (hnone w hw b)

/-- Downloads that start afresh are validated exactly when the pieces of a file are not counted
as none. -/
theorem downloadSegmented_validated_iff (layout : Layout) :
    (∀ run : SegmentedRun, (run.downloadSegmented (.new layout)).Validated) ↔
      (layout.totalPieces = 0 → layout.totalLength = 0) := by
  constructor
  · intro hall hzero
    by_contra hl
    -- the output is there with the right length
    let run : SegmentedRun := ⟨1, 1, 1, fun _ => [], [],
      .file ⟨layout.totalLength.toNat, fun _ => 0⟩, [], .ok (), [], .ok ()⟩
    have hc : (new layout).allComplete = true := by
      rw [allComplete_iff, hzero]
      exact fun index hi => absurd hi (Nat.not_lt_zero index)
    have hv := hall run
    rw [downloadSegmented, if_pos hc] at hv
    have hm : run.output.validateMetadata run.outputName run.osError
        layout.totalLength.toNat = .ok () := if_neg (not_not.mpr rfl)
    rw [hm] at hv
    obtain ⟨-, content, -, hb⟩ := hv.succeeded _ rfl
    have hpos : 0 < layout.totalLength.toNat :=
      Nat.pos_of_ne_zero fun heq => hl (UInt64.toNat_inj.mp heq)
    obtain ⟨w, hw, -⟩ := hb 0 hpos
    exact absurd hw not_mem_nil
  · intro hcou run
    unfold downloadSegmented
    split
    next hc =>
      have hzero : layout.totalPieces = 0 := by
        by_contra hne
        have hset := (allComplete_iff _).mp hc 0 (Nat.pos_of_ne_zero hne)
        rw [isComplete, new, BitfieldMan.isSet_new] at hset
        cases hset
      have hl : layout.totalLength.toNat = 0 := by
        rw [hcou hzero]
        rfl
      refine ⟨fun piece => absurd piece.isLt (by omega), fun size hs =>
        ⟨fun piece => absurd piece.isLt (by omega), ?_⟩⟩
      cases ho : run.output with
      | missing | other => simp [ho, OutputEntry.validateMetadata] at hs
      | file content => exact ⟨content, rfl, fun position hp => absurd hp (by omega)⟩
    next hinc =>
      have hpi : 0 < layout.totalPieces := by
        by_contra hzero
        refine hinc ((allComplete_iff _).mpr fun index hi => ?_)
        exact absurd hi (by omega)
      split
      · refine ⟨fun piece hpie => ?_, fun size hs => ?_⟩
        · rw [isComplete, new, BitfieldMan.isSet_new] at hpie
          cases hpie
        · cases hs
      · exact run.session_validated hpi

def manyPieces : Layout := ⟨281474976710656, 65536, positive_65536⟩

/-- The 2 ^ 32 pieces are counted as none: a file of zeros that was there before is the result, and
nothing is written. -/
theorem no_piece_is_complete : let run : SegmentedRun := ⟨5, 5, 5, fun _ => [], [],
      .file ⟨281474976710656, fun _ => 0⟩, [], .ok (), [], .ok ()⟩
    let outcome := run.downloadSegmented (.new manyPieces)
    manyPieces.pieceCount = 2 ^ 32 ∧ outcome.result = some (.ok (2 ^ 48)) ∧
      outcome.writes.length = 0 := by decide

end SegmentedRun

end Aioduct.Cli
