import Aioduct.Wire.Bitmap

/-!
# Pieces of a download

`download/piece`: a file is cut into pieces, of which those that are complete are marked in a
bitfield. The number of pieces is kept in 32 bits.
-/

namespace Aioduct.Cli

open Wire Nat List Option

variable {position index : Nat}

structure Layout where
  totalLength : UInt64
  pieceLength : UInt32
  positive : 0 < pieceLength.toNat

lemma positive_65536 : 0 < (65536 : UInt32).toNat := by decide

namespace Layout

variable (self : Layout)

def pieceCount : Nat :=
  (self.totalLength.toNat + (self.pieceLength.toNat - 1)) / self.pieceLength.toNat

def totalPieces : Nat := self.pieceCount % 2 ^ 32

def offset (index : Nat) : Nat := index * self.pieceLength.toNat

def length (index : Nat) : Nat :=
  if index = self.totalPieces - 1 then self.totalLength.toNat - self.offset index
  else self.pieceLength.toNat

def pieceRange (index : Nat) : Nat × Nat := (self.offset index, self.length index)

variable {self : Layout}

lemma totalPieces_le : self.totalPieces ≤ self.pieceCount := Nat.mod_le _ _

variable {index : Nat}

lemma offset_lt (h : index < self.pieceCount) : self.offset index < self.totalLength.toNat := by
  have hpos := self.positive
  have hle : (index + 1) * self.pieceLength.toNat ≤
      self.totalLength.toNat + (self.pieceLength.toNat - 1) :=
    (le_div_iff_mul_le hpos).mp h
  rw [add_mul, one_mul] at hle
  rw [offset]
  omega

lemma length_pos (h : index < self.totalPieces) : 0 < self.length index := by
  have hlt := offset_lt (lt_of_lt_of_le h self.totalPieces_le)
  unfold length
  split
  · omega
  · exact self.positive

lemma offset_add_length_le (h : index < self.totalPieces) :
    self.offset index + self.length index ≤ self.totalLength.toNat := by
  have hlt := offset_lt (lt_of_lt_of_le h self.totalPieces_le)
  unfold length
  split
  · omega
  have hn : index + 1 < self.pieceCount := by
    have hle := self.totalPieces_le
    omega
  have he := offset_lt hn
  rw [offset, add_mul, one_mul] at he
  rw [offset]
  omega

lemma exists_piece (hp : 0 < self.totalPieces) (h : position < self.totalLength.toNat) :
    ∃ index < self.totalPieces, self.offset index ≤ position ∧
      position < self.offset index + self.length index := by
  have hpos := self.positive
  by_cases hl : position / self.pieceLength.toNat < self.totalPieces - 1
  · refine ⟨position / self.pieceLength.toNat, by omega, Nat.div_mul_le_self _ _, ?_⟩
    rw [length, if_neg (Nat.ne_of_lt hl), offset]
    exact lt_div_mul_add hpos
  refine ⟨self.totalPieces - 1, by omega, ?_, ?_⟩
  · exact le_trans (Nat.mul_le_mul_right _ (Nat.le_of_not_lt hl)) (Nat.div_mul_le_self _ _)
  · rw [length, if_pos rfl]
    omega

/-- The pieces follow one another from the beginning of the file to its end, and none is empty or
longer than it should be. -/
structure Partitions (layout : Layout) : Prop where
  contiguous : ∀ index, index + 1 < layout.totalPieces →
    (layout.pieceRange (index + 1)).1 = (layout.pieceRange index).1 + (layout.pieceRange index).2
  disjoint : ∀ i < layout.totalPieces, ∀ j < i,
    (layout.pieceRange j).1 + (layout.pieceRange j).2 ≤ (layout.pieceRange i).1
  bounded : ∀ index < layout.totalPieces,
    1 ≤ (layout.pieceRange index).2 ∧ (layout.pieceRange index).2 ≤ layout.pieceLength.toNat
  covers : ∀ position, position < layout.totalLength.toNat ↔
    ∃ index < layout.totalPieces, (layout.pieceRange index).1 ≤ position ∧
      position < (layout.pieceRange index).1 + (layout.pieceRange index).2

lemma pieceCount_lt_iff : self.pieceCount < 2 ^ 32 ↔
    self.totalLength.toNat ≤ (2 ^ 32 - 1) * self.pieceLength.toNat := by
  have hpos := self.positive
  rw [pieceCount, div_lt_iff_lt_mul hpos]
  omega

lemma offset_succ (index : Nat) :
    self.offset (index + 1) = self.offset index + self.pieceLength.toNat := Nat.succ_mul index _

lemma length_of_lt (h : index + 1 < self.totalPieces) :
    self.length index = self.pieceLength.toNat := if_neg (by omega)

lemma lt_length_of_lt_pieceCount (hp : 0 < self.totalPieces)
    (h : self.totalPieces < self.pieceCount) :
    self.pieceLength.toNat < self.length (self.totalPieces - 1) := by
  have hs := offset_lt h
  have hl := self.offset_succ (self.totalPieces - 1)
  rw [Nat.sub_add_cancel hp] at hl
  rw [length, if_pos rfl]
  omega

lemma offset_add_length_le_offset {i j : Nat} (hi : i < self.totalPieces) (hj : j < i) :
    self.offset j + self.length j ≤ self.offset i := by
  rw [length_of_lt (by omega), ← offset_succ]
  exact Nat.mul_le_mul_right _ hj

/-- A position lies in a piece. -/
def Covers (self : Layout) (index position : Nat) : Prop :=
  self.offset index ≤ position ∧ position < self.offset index + self.length index

lemma Covers.unique {i j : Nat} (hi : i < self.totalPieces) (hj : j < self.totalPieces)
    (h : self.Covers i position) (h' : self.Covers j position) : i = j := by
  obtain ⟨hs, he⟩ := h
  obtain ⟨hs', he'⟩ := h'
  rcases Nat.lt_trichotomy i j with hlt | heq | hlt
  · have hle := offset_add_length_le_offset hj hlt
    omega
  · exact heq
  · have hle := offset_add_length_le_offset hi hlt
    omega

lemma partitions_of_pieceCount_lt (hlen : 0 < self.totalLength.toNat)
    (h : self.pieceCount < 2 ^ 32) : self.Partitions := by
  have hpos := self.positive
  have hc : self.totalPieces = self.pieceCount := mod_eq_of_lt h
  have hp : 0 < self.totalPieces := by
    rw [hc, pieceCount]
    exact div_pos (by omega) hpos
  -- the last piece begins less than a piece before the end
  have he : self.totalLength.toNat ≤ self.totalPieces * self.pieceLength.toNat := by
    have hlt := lt_div_mul_add (a := self.totalLength.toNat + (self.pieceLength.toNat - 1)) hpos
    rw [hc, pieceCount]
    omega
  refine ⟨fun index hidx => ?_, fun i hi j hj => ?_, fun index hidx => ?_,
    fun position => ⟨exists_piece hp, ?_⟩⟩
  · rw [pieceRange, pieceRange, offset_succ, length_of_lt hidx]
  · exact offset_add_length_le_offset hi hj
  · refine ⟨length_pos hidx, ?_⟩
    by_cases hl : index + 1 < self.totalPieces
    · exact le_of_eq (length_of_lt hl)
    obtain rfl : index = self.totalPieces - 1 := by omega
    have hs := self.offset_succ (self.totalPieces - 1)
    rw [Nat.sub_add_cancel hp, offset] at hs
    rw [pieceRange, length, if_pos rfl]
    omega
  · rintro ⟨index, hidx, -, hpo⟩
    exact lt_of_lt_of_le hpo (offset_add_length_le hidx)

lemma partitions_iff_pieceCount (hlen : 0 < self.totalLength.toNat) :
    self.Partitions ↔ self.pieceCount < 2 ^ 32 := by
  refine ⟨fun h => ?_, partitions_of_pieceCount_lt hlen⟩
  by_contra hmany
  obtain ⟨index, hi, -⟩ := (h.covers 0).mp hlen
  have hp : 0 < self.totalPieces := zero_lt_of_lt hi
  have hlt : self.totalPieces < self.pieceCount :=
    lt_of_lt_of_le (mod_lt _ (by decide)) (not_lt.mp hmany)
  have hl := lt_length_of_lt_pieceCount hp hlt
  exact absurd (h.bounded (self.totalPieces - 1) (by omega)).2 (Nat.not_le.mpr hl)

variable (totalLength : UInt64) (splitCount : UInt32) (userOverride : Option UInt64)

def computePieceLength : UInt32 :=
  let minPiece := 64 * 1024
  let maxPiece := 4 * 1024 * 1024
  match userOverride with
  | some size => UInt32.ofNat (max minPiece (min size.toNat (2 ^ 32 - 1)))
  | none =>
    let targetPieces := min (max splitCount.toNat 1 * 4) (2 ^ 32 - 1)
    let raw := (totalLength.toNat + (targetPieces - 1)) / targetPieces
    UInt32.ofNat (max minPiece (min raw maxPiece))

lemma computePieceLength_pos :
    0 < (computePieceLength totalLength splitCount userOverride).toNat := by
  unfold computePieceLength
  cases userOverride with
  | some size | none =>
    simp only [UInt32.toNat_ofNat']
    omega

def ofDownload : Layout :=
  ⟨totalLength, computePieceLength totalLength splitCount userOverride,
    computePieceLength_pos totalLength splitCount userOverride⟩

/-- The pieces make up the file exactly when their number fits in 32 bits. -/
theorem partitions_iff (totalLength : UInt64) (splitCount : UInt32) (userOverride : Option UInt64)
    (h : 0 < totalLength) :
    (ofDownload totalLength splitCount userOverride).Partitions ↔ totalLength.toNat ≤
      (2 ^ 32 - 1) * (computePieceLength totalLength splitCount userOverride).toNat := by
  have hl : 0 < (ofDownload totalLength splitCount userOverride).totalLength.toNat :=
    UInt64.lt_iff_toNat_lt.mp h
  exact (partitions_iff_pieceCount hl).trans pieceCount_lt_iff

theorem partitions_sixteen :
    (ofDownload 1000000 5 none).totalPieces = 16 ∧ (ofDownload 1000000 5 none).Partitions :=
  ⟨by decide, (partitions_iff 1000000 5 none (by decide)).mpr (by decide)⟩

/-- With 2 ^ 54 bytes and nothing set by the user there are 2 ^ 32 pieces of 4 MiB, which are
counted as none. -/
theorem no_piece_of_many : (ofDownload 18014398509481984 5 none).pieceLength = 4194304 ∧
    (ofDownload 18014398509481984 5 none).pieceCount = 2 ^ 32 ∧
    (ofDownload 18014398509481984 5 none).totalPieces = 0 ∧
    ¬(ofDownload 18014398509481984 5 none).Partitions := by
  refine ⟨by decide, by decide, by decide, fun h => ?_⟩
  exact absurd ((partitions_iff_pieceCount (by decide)).mp h) (by decide)

end Layout

/-! ### Bitfield -/

structure BitfieldMan (layout : Layout) where
  bits : Bytes
  completedCount : Nat
  size : bits.length = (layout.totalPieces + 7) / 8
  counted : completedCount = countBelow (bitAt bits) layout.totalPieces

namespace BitfieldMan

variable {layout : Layout}

/-- The bits of which the padding does not count. -/
def ofBits (bits : Bytes) (size : bits.length = (layout.totalPieces + 7) / 8) :
    BitfieldMan layout where
  bits := bits
  completedCount := countBelow (bitAt bits) layout.totalPieces
  size := size
  counted := rfl

def new (layout : Layout) : BitfieldMan layout where
  bits := List.replicate ((layout.totalPieces + 7) / 8) 0
  completedCount := 0
  size := List.length_replicate
  counted := by
    symm
    apply List.countP_eq_zero.mpr
    intro i _
    rw [bitAt_replicate_zero]
    exact Bool.false_ne_true

variable (self : BitfieldMan layout)

def isSet (index : Nat) : Bool := bitAt self.bits index

def remainingCount : Nat := layout.totalPieces - self.completedCount

def isAllSet : Bool := self.completedCount == layout.totalPieces

lemma byte_lt (index : Fin layout.totalPieces) : index.val / 8 < self.bits.length := by
  rw [self.size]
  omega

def setBit (self : BitfieldMan layout) (index : Fin layout.totalPieces) : BitfieldMan layout :=
  if h : bitAt self.bits index = true then self
  else
    { bits := Wire.setBit self.bits index
      completedCount := self.completedCount + 1
      size := (length_setBit _ _).trans self.size
      counted := by
        rw [self.counted, countBelow_insert index.isLt (Bool.not_eq_true _ ▸ h)
          (bitAt_setBit (self.byte_lt index))] }

/-- `from_bytes`: what is missing is not set, what is too much is ignored. -/
def fromBytes (layout : Layout) (bytes : Bytes) : BitfieldMan layout :=
  let count := (layout.totalPieces + 7) / 8
  ofBits (bytes.take count ++ List.replicate (count - bytes.length) 0) (by
    simp only [List.length_append, List.length_take, List.length_replicate]
    omega)

@[simp]
lemma isSet_new (index : Nat) : (new layout).isSet index = false := bitAt_replicate_zero _ _

@[simp]
lemma isSet_setBit (index : Fin layout.totalPieces) (other : Nat) :
    (self.setBit index).isSet other = (other == index.val || self.isSet other) := by
  unfold setBit
  split
  next h =>
    by_cases heq : other = index.val
    · simp [isSet, heq, h]
    · simp [heq]
  · exact bitAt_setBit (self.byte_lt index) other

lemma isAllSet_iff : self.isAllSet ↔ ∀ index < layout.totalPieces, self.isSet index := by
  rw [isAllSet, beq_iff_eq, self.counted]
  exact countBelow_eq_iff

end BitfieldMan

/-! ### Storage -/

structure PieceMetadata where
  retryCount : Nat := 0
  failed : Bool := false
  lastError : Option Bytes := none

structure PieceStorage (layout : Layout) where
  bitfield : BitfieldMan layout
  inFlight : List Nat := []
  metadata : List PieceMetadata := List.replicate layout.totalPieces {}

namespace PieceStorage

variable {layout : Layout}

def new (layout : Layout) : PieceStorage layout where
  bitfield := .new layout

def fromBitfield (bitfield : BitfieldMan layout) : PieceStorage layout where
  bitfield := bitfield

variable (self : PieceStorage layout)

def markComplete (index : Fin layout.totalPieces) : PieceStorage layout where
  bitfield := self.bitfield.setBit index
  inFlight := self.inFlight.filter (· != index.val)
  metadata := self.metadata.modify index
    fun entry => { entry with failed := false, lastError := none }

def markInFlight (index : Fin layout.totalPieces) : PieceStorage layout :=
  { self with inFlight := index.val :: self.inFlight.filter (· != index.val) }

def release (index : Fin layout.totalPieces) : PieceStorage layout :=
  { self with inFlight := self.inFlight.filter (· != index.val) }

def countRetry (entry : PieceMetadata) : Nat := min (entry.retryCount + 1) (2 ^ 32 - 1)

def recordRetry (index : Fin layout.totalPieces) (error : Bytes) : PieceStorage layout :=
  { self with
    metadata := self.metadata.modify index fun entry =>
      { retryCount := countRetry entry, failed := false, lastError := some error } }

def markFailed (index : Fin layout.totalPieces) (error : Bytes) : PieceStorage layout :=
  { self with
    inFlight := self.inFlight.filter (· != index.val)
    metadata := self.metadata.modify index fun entry =>
      { retryCount := countRetry entry, failed := true, lastError := some error } }

def isComplete (index : Nat) : Bool := self.bitfield.isSet index

def isAvailable (index : Nat) : Bool := !self.bitfield.isSet index && !self.inFlight.contains index

def allComplete : Bool := self.bitfield.isAllSet

def remainingPieces : Nat := self.bitfield.remainingCount

def completedCount (self : PieceStorage layout) : Nat := self.bitfield.completedCount

lemma isComplete_markComplete (index : Fin layout.totalPieces) (other : Nat) :
    (self.markComplete index).isComplete other = (other == index.val || self.isComplete other) :=
  self.bitfield.isSet_setBit index other

lemma allComplete_iff : self.allComplete ↔ ∀ index < layout.totalPieces, self.isComplete index :=
  self.bitfield.isAllSet_iff

end PieceStorage

/-! ### Selector -/

/-- The run of available pieces that is being read, and the longest one before it. -/
structure Scan where
  runStart : Option Nat := none
  runLen : Nat := 0
  bestStart : Nat := 0
  bestLen : Nat := 0

namespace Scan

def finish (self : Scan) : Scan :=
  if self.bestLen < self.runLen then
    { bestStart := self.runStart.getD 0, bestLen := self.runLen }
  else { bestStart := self.bestStart, bestLen := self.bestLen }

variable (available : Nat → Bool)

def step (self : Scan) (index : Nat) : Scan :=
  if available index then
    match self.runStart with
    | none => { self with runStart := some index, runLen := 1 }
    | some _ => { self with runLen := self.runLen + 1 }
  else self.finish

def scan (total : Nat) : Scan :=
  (List.range total).foldl (step available) {}

def Free (start len : Nat) : Prop :=
  ∀ index, start ≤ index → index < start + len → available index = true

/-- Both runs are of available pieces, and the current one reaches to the last index that was
read. -/
structure Reads (available : Nat → Bool) (total : Nat) (scan : Scan) : Prop where
  run : ∀ start ∈ scan.runStart, start + scan.runLen = total ∧ Free available start scan.runLen
  fresh : scan.runStart = none → scan.runLen = 0
  best : scan.bestStart + scan.bestLen ≤ total ∧ Free available scan.bestStart scan.bestLen

variable {available : Nat → Bool} {total : Nat} {self : Scan}

lemma Reads.finish_best (h : Reads available total self) :
    self.finish.bestStart + self.finish.bestLen ≤ total ∧
      Free available self.finish.bestStart self.finish.bestLen := by
  unfold Scan.finish
  split
  next hl =>
    cases hs : self.runStart with
    | none =>
      have hzero := h.fresh hs
      omega
    | some start =>
      obtain ⟨he, hf⟩ := h.run start hs
      exact ⟨le_of_eq he, hf⟩
  · exact h.best

lemma finish_runStart : self.finish.runStart = none ∧ self.finish.runLen = 0 := by
  unfold finish
  split <;> exact ⟨rfl, rfl⟩

lemma Reads.step (h : Reads available total self) :
    Reads available (total + 1) (self.step available total) := by
  unfold Scan.step
  split
  next ha =>
    have hb : self.bestStart + self.bestLen ≤ total + 1 := le_succ_of_le h.best.1
    split
    · refine ⟨fun start hs => ?_, fun hnone => (by cases hnone), hb, h.best.2⟩
      cases hs
      refine ⟨rfl, fun index hle hlt => ?_⟩
      obtain rfl : total = index := le_antisymm hle (le_of_lt_succ hlt)
      exact ha
    rename_i start hs
    obtain ⟨he, hf⟩ := h.run start hs
    refine ⟨fun start' hs' => ?_, fun hnone => ?_, hb, h.best.2⟩
    · obtain rfl : start = start' := Option.some.inj (hs.symm.trans hs')
      refine ⟨by simp only; omega, fun index hle hlt => ?_⟩
      by_cases hl : index = total
      · rw [hl]
        exact ha
      · exact hf index hle (by simp only at hlt; omega)
    · rw [hs] at hnone
      cases hnone
  · obtain ⟨hb, hf⟩ := h.finish_best
    obtain ⟨hnone, hzero⟩ := @finish_runStart self
    refine ⟨fun start hs => ?_, fun _ => hzero, le_succ_of_le hb, hf⟩
    rw [hnone] at hs
    cases hs

lemma scan_reads (available : Nat → Bool) (total : Nat) :
    Reads available total (scan available total) := by
  induction total with
  | zero =>
    exact ⟨fun start hs => (by cases hs), fun _ => rfl, le_rfl,
      fun index _ hlt => absurd hlt (not_lt_zero index)⟩
  | succ total ih =>
    rw [scan, range_succ, foldl_append]
    exact ih.step

/-- The run of `len` pieces from `start` on is before no other run of its length, and none is
longer. -/
def First (available : Nat → Bool) (total start len : Nat) : Prop :=
  ∀ start' len', 0 < len' → start' + len' ≤ total → Free available start' len' →
    len' < len ∨ len' = len ∧ start ≤ start'

/-- Each run that was read begins in the current one or is not preferred to the best one. -/
structure Covers (available : Nat → Bool) (total : Nat) (scan : Scan) : Prop where
  edge : ∀ index, index + 1 = scan.runStart.getD total → available index = false
  before : scan.bestStart ≤ scan.runStart.getD total
  cover : ∀ start len, 0 < len → start + len ≤ total → Free available start len →
    scan.runStart.getD total ≤ start ∨
      len < scan.bestLen ∨ len = scan.bestLen ∧ scan.bestStart ≤ start

lemma Covers.finish (h : Covers available total self) (hr : Reads available total self) :
    First available total self.finish.bestStart self.finish.bestLen := by
  intro start len hpos hle hf
  have hc := h.cover start len hpos hle hf
  have hb := h.before
  unfold Scan.finish
  cases hs : self.runStart with
  | none =>
    have hzero := hr.fresh hs
    rw [hs, getD_none] at hc
    split_ifs <;> simp only <;> omega
  | some run =>
    have he := (hr.run run hs).1
    rw [hs, getD_some] at hc hb
    split_ifs <;> simp only [getD_some] <;> omega

lemma Covers.step (h : Covers available total self) (hr : Reads available total self) :
    Covers available (total + 1) (self.step available total) := by
  unfold Scan.step
  split_ifs with ha
  · -- The current run still begins where it did.
    have hd : self.runStart.getD total ≤ total := by
      cases hs : self.runStart with
      | none => exact le_rfl
      | some start => exact le.intro (hr.run start hs).1
    have he (start len : Nat) (hpos : 0 < len) (hle : start + len ≤ total + 1)
        (hf : Free available start len) := by
      by_cases ht : start + len ≤ total
      · exact h.cover start len hpos ht hf
      by_cases hs : self.runStart.getD total ≤ start
      · exact .inl hs
      · have hedge := h.edge (self.runStart.getD total - 1) (by omega)
        rw [hf _ (by omega) (by omega)] at hedge
        cases hedge
    split <;> rename_i hs <;> have hedge := h.edge <;> have hb := h.before <;>
      rw [hs] at he hedge hb
    · exact ⟨hedge, hb, he⟩
    · refine ⟨?_, ?_, ?_⟩ <;> simp_all
  · obtain ⟨hnone, -⟩ := @finish_runStart self
    obtain ⟨hb, -⟩ := hr.finish_best
    have hu : available total = false := by simpa using ha
    refine ⟨?_, ?_, fun start len hpos hle hf => .inr ?_⟩
    · rw [hnone]
      intro index hi
      rwa [show index = total from Nat.succ.inj hi]
    · rw [hnone]
      exact (le_add_right _ _).trans (le_succ_of_le hb)
    · refine h.finish hr start len hpos ?_ hf
      by_contra hn
      rw [hf total (by omega) (by omega)] at hu
      cases hu

lemma scan_covers (available : Nat → Bool) (total : Nat) :
    Covers available total (scan available total) := by
  induction total with
  | zero => exact ⟨fun index hi => absurd hi (succ_ne_zero index), le_rfl, fun _ _ => by omega⟩
  | succ total ih =>
    rw [scan, range_succ, foldl_append]
    exact ih.step (scan_reads available total)

def middle (available : Nat → Bool) (total : Nat) : Option Nat :=
  let best := (scan available total).finish
  if best.bestLen = 0 then none else some (best.bestStart + best.bestLen / 2)

lemma middle_spec (h : middle available total = some index) : index < total ∧ available index := by
  obtain ⟨hb, hf⟩ := (scan_reads available total).finish_best
  unfold middle at h
  simp only at h
  split_ifs at h
  · cases h
    exact ⟨by omega, hf _ (le_add_right _ _) (by omega)⟩

end Scan

variable {layout : Layout}

def selectPiece (storage : PieceStorage layout) : Option (Fin layout.totalPieces) :=
  (Scan.middle storage.isAvailable layout.totalPieces).pmap Fin.mk
    fun _ h => (Scan.middle_spec h).1

variable {storage : PieceStorage layout}

lemma selectPiece_isSome
    (h : index < layout.totalPieces) (ha : storage.isAvailable index) :
    (selectPiece storage).isSome := by
  have hf : Scan.Free storage.isAvailable index 1 := by
    intro other hle hlt
    rwa [← le_antisymm hle (le_of_lt_succ hlt)]
  have hc := (Scan.scan_covers _ _).finish (Scan.scan_reads _ _) index 1 one_pos h hf
  have hb : (Scan.scan storage.isAvailable layout.totalPieces).finish.bestLen ≠ 0 := by omega
  simp [selectPiece, Scan.middle, hb]

/-- A run of available pieces that no further piece can be added to. -/
structure MaximalRun {layout : Layout} (storage : PieceStorage layout) (start len : Nat) : Prop where
  pos : 0 < len
  within : start + len ≤ layout.totalPieces
  free : Scan.Free storage.isAvailable start len
  left : ∀ index, index + 1 = start → storage.isAvailable index = false
  right : start + len < layout.totalPieces → storage.isAvailable (start + len) = false

lemma maximalRun_of_first {start len : Nat}
    (hpos : 0 < len) (hle : start + len ≤ layout.totalPieces)
    (hf : Scan.Free storage.isAvailable start len)
    (h : Scan.First storage.isAvailable layout.totalPieces start len) :
    MaximalRun storage start len := by
  refine ⟨hpos, hle, hf, fun index hi => ?_, fun hlt => ?_⟩ <;> rw [← Bool.not_eq_true] <;> intro ha
  · have hl := h index (len + 1) (by omega) (by omega) fun other h1 h2 => ?_
    · omega
    · rcases h1.eq_or_lt with rfl | h1
      · exact ha
      · exact hf other (by omega) (by omega)
  · have hl := h start (len + 1) (by omega) (by omega) fun other h1 h2 => ?_
    · omega
    · rcases (Nat.lt_succ_iff.mp h2).eq_or_lt with rfl | h2
      · exact ha
      · exact hf other h1 h2

lemma middle_of_selectPiece
    {index : Fin layout.totalPieces} (h : selectPiece storage = some index) :
    Scan.middle storage.isAvailable layout.totalPieces = some index.val := by
  obtain ⟨i, hi, hmid, rfl⟩ := pmap_eq_some_iff.mp h
  exact hmid

theorem selectPiece_exact {layout : Layout} (storage : PieceStorage layout) :
    ((selectPiece storage).isSome ↔ ∃ index < layout.totalPieces, storage.isAvailable index) ∧
      ∀ index, selectPiece storage = some index → storage.isAvailable index ∧
        ∃ start len, MaximalRun storage start len ∧ index.val = start + len / 2 ∧
          ∀ start' len', MaximalRun storage start' len' →
            len' < len ∨ len' = len ∧ start ≤ start' := by
  have hr := Scan.scan_reads storage.isAvailable layout.totalPieces
  have hc := (Scan.scan_covers storage.isAvailable layout.totalPieces).finish hr
  obtain ⟨hle, hf⟩ := hr.finish_best
  refine ⟨⟨fun h => ?_, ?_⟩, fun index h => ?_⟩
  · obtain ⟨index, h⟩ := isSome_iff_exists.mp h
    exact ⟨index, Scan.middle_spec (middle_of_selectPiece h)⟩
  · rintro ⟨index, hi, ha⟩
    exact selectPiece_isSome hi ha
  · have h := middle_of_selectPiece h
    refine ⟨(Scan.middle_spec h).2, ?_⟩
    unfold Scan.middle at h
    simp only at h
    split_ifs at h with hzero
    have hpos := Nat.pos_of_ne_zero hzero
    exact ⟨_, _, maximalRun_of_first hpos hle hf hc, (Option.some.inj h).symm,
      fun start len hmax => hc start len hmax.pos hmax.within hmax.free⟩

end Aioduct.Cli
