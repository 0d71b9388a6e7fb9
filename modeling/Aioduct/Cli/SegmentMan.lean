import Aioduct.Cli.Piece

/-!
# Segments

`download/segment_man.rs` and `download/endgame.rs`: which piece a worker is given. In the end game
a piece can be given twice; its workers hold a token that is cancelled once it is complete.
-/

namespace Aioduct.Cli

open Wire

structure EndGameTracker where
  threshold : Nat
  active : Bool := false
  /-- The token of a piece; tokens are numbered in the order in which they are made. -/
  pieceTokens : List (Nat × Nat) := []
  made : Nat := 0
  cancelled : List Nat := []

namespace EndGameTracker

variable (self : EndGameTracker)

def checkActivate (remaining : Nat) : EndGameTracker :=
  if remaining ≤ self.threshold && !self.active then { self with active := true } else self

def registerWorker (index : Nat) : Nat × EndGameTracker :=
  match self.pieceTokens.lookup index with
  | some token => (token, self)
  | none =>
    (self.made, { self with
      pieceTokens := (index, self.made) :: self.pieceTokens
      made := self.made + 1 })

def pieceCompleted (index : Nat) : EndGameTracker :=
  match self.pieceTokens.lookup index with
  | some token =>
    { self with
      pieceTokens := self.pieceTokens.filter (·.1 != index)
      cancelled := token :: self.cancelled }
  | none => self

def isCancelled (token : Nat) : Bool := self.cancelled.contains token

end EndGameTracker

structure SegmentMan (layout : Layout) where
  storage : PieceStorage layout
  endgame : EndGameTracker

namespace SegmentMan

variable {layout : Layout}

def new (storage : PieceStorage layout) (splitCount : Nat) : SegmentMan layout where
  storage := storage
  endgame := { threshold := splitCount }

variable (self : SegmentMan layout)

def nextPiece : Option (Fin layout.totalPieces) × SegmentMan layout :=
  if self.storage.allComplete then (none, self)
  else
    let self := { self with
      endgame := self.endgame.checkActivate self.storage.remainingPieces }
    match selectPiece self.storage with
    | some index => (some index, { self with storage := self.storage.markInFlight index })
    | none =>
      if self.endgame.active then
        ((List.finRange layout.totalPieces).find? fun index => !self.storage.isComplete index, self)
      else (none, self)

variable (index : Fin layout.totalPieces)

def completePiece : SegmentMan layout where
  storage := self.storage.markComplete index
  endgame := self.endgame.pieceCompleted index

def failPiece : SegmentMan layout :=
  { self with storage := self.storage.release index }

def recordPieceRetry (error : Bytes) : SegmentMan layout :=
  { self with storage := self.storage.recordRetry index error }

def markPieceFailed (error : Bytes) : SegmentMan layout :=
  { self with storage := self.storage.markFailed index error }

def isComplete : Bool := self.storage.allComplete

@[simp]
lemma bitfield_nextPiece : self.nextPiece.2.storage.bitfield = self.storage.bitfield := by
  unfold nextPiece
  split
  · rfl
  simp only
  split
  · rfl
  · split <;> rfl

end SegmentMan

end Aioduct.Cli
