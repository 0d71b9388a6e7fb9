import Aioduct.Cli.Segmented
import Aioduct.Wire.Ip
import Aioduct.Wire.Utf8

/-!
# Resumed downloads

`resume_or_new_storage` of `download/engine.rs` and `download/control_file.rs`: the marks of an
earlier run are taken from the control file.
-/

namespace Aioduct.Cli

open Wire PieceStorage List

variable {index piece size : Nat} {layout : Layout}

/-! ### Control file -/

structure ControlFile where
  version : UInt32
  url : Bytes
  totalLength : UInt64
  pieceLength : UInt32
  /-- The bits in hexadecimal digits. -/
  bitfield : Bytes
  etag : Option Bytes := none
  lastModified : Option Bytes := none
  createdAt : Bytes
  updatedAt : Bytes

/-- A text that is not hexadecimal, or one that is cut inside a character. -/
inductive HexFailure where
  | invalid
  | panic
  deriving DecidableEq

def isContinuation (b : UInt8) : Bool := 0x80 ≤ b && b < 0xC0

/-- `u8::from_str_radix` of two characters, which allows a sign. -/
def hexPair (a b : UInt8) : Option UInt8 :=
  if a == byte '+' then (Ip.hexDigit b).map UInt8.ofNat
  else (Ip.hexDigit a).bind fun high => (Ip.hexDigit b).map fun low => UInt8.ofNat (16 * high + low)

def parseHex : Bytes → Except HexFailure Bytes
  | a :: b :: rest =>
    if isContinuation a || rest.head?.any isContinuation then throw .panic
    else
      match hexPair a b with
      | none => throw .invalid
      | some value => do pure (value :: (← parseHex rest))
  | _ => pure []

namespace BitfieldMan

def toHex (self : BitfieldMan layout) : Bytes := hex self.bits

end BitfieldMan

variable (bytes : Bytes)

namespace ControlFile

def fromStorage (storage : PieceStorage layout) (url : Bytes) (etag lastModified : Option Bytes)
    (createdAt updatedAt : Bytes) : ControlFile where
  version := 1
  url := url
  totalLength := layout.totalLength
  pieceLength := layout.pieceLength
  bitfield := storage.bitfield.toHex
  etag := etag
  lastModified := lastModified
  createdAt := createdAt
  updatedAt := updatedAt

/-- The number of pieces is a quotient, which cannot be taken by zero. -/
def toStorage (self : ControlFile) : Except HexFailure ((layout : Layout) × PieceStorage layout) :=
  if self.bitfield.length % 2 ≠ 0 then throw .invalid
  else do
    let bytes ← parseHex self.bitfield
    if h : 0 < self.pieceLength.toNat then
      pure ⟨⟨self.totalLength, self.pieceLength, h⟩, .fromBitfield (.fromBytes _ bytes)⟩
    else throw .panic

end ControlFile

lemma hexPair_hexDigit (b : UInt8) :
    hexPair (hexDigit (b.toNat / 16)) (hexDigit (b.toNat % 16)) = some b ∧
      isContinuation (hexDigit (b.toNat / 16)) = false := by
  revert b
  decide +kernel

lemma parseHex_hex : parseHex (hex bytes) = .ok bytes := by
  induction bytes with
  | nil => rfl
  | cons b bytes ih =>
    obtain ⟨hp, hs⟩ := hexPair_hexDigit b
    have hn : (hex bytes).head?.any isContinuation = false := by
      cases bytes with
      | nil => rfl
      | cons next bytes => exact (hexPair_hexDigit next).2
    change parseHex (_ :: _ :: hex bytes) = _
    rw [parseHex, hs, hn, if_neg (by decide), hp]
    simp only [ih]
    rfl

lemma fromBytes_bits (bitfield : BitfieldMan layout) :
    BitfieldMan.fromBytes layout bitfield.bits = bitfield := by
  obtain ⟨bits, completedCount, size, counted⟩ := bitfield
  subst counted
  simp only [BitfieldMan.fromBytes, BitfieldMan.ofBits, ← size, Nat.sub_self, replicate_zero,
    append_nil, take_length]

lemma isComplete_foldl (pieces : List (Fin layout.totalPieces)) (storage : PieceStorage layout)
    (piece : Fin layout.totalPieces) :
    (pieces.foldl markComplete storage).isComplete piece ↔
      piece ∈ pieces ∨ storage.isComplete piece := by
  induction pieces generalizing storage with
  | nil => simp
  | cons first pieces ih =>
    rw [foldl_cons, ih, isComplete_markComplete, Bool.or_eq_true, beq_iff_eq,
      mem_cons, ← Fin.ext_iff]
    tauto

/-- What is marked is counted, and is in the storage that is read back from the control file. -/
theorem progress_survives (layout : Layout) (pieces : List (Fin layout.totalPieces)) (url : Bytes)
    (etag lastModified : Option Bytes) (createdAt updatedAt : Bytes) :
    let storage := pieces.foldl markComplete (.new layout)
    (∀ piece : Fin layout.totalPieces, storage.isComplete piece = true ↔ piece ∈ pieces) ∧
      storage.completedCount = countBelow storage.isComplete layout.totalPieces ∧
      ∃ restored : PieceStorage layout,
        (ControlFile.fromStorage storage url etag lastModified createdAt updatedAt).toStorage =
          .ok ⟨layout, restored⟩ ∧
        (∀ piece, restored.isComplete piece = storage.isComplete piece) ∧
        restored.completedCount = storage.completedCount ∧
        restored.remainingPieces = storage.remainingPieces ∧ restored.inFlight = [] := by
  intro storage
  refine ⟨fun piece => ?_, storage.bitfield.counted, .fromBitfield storage.bitfield, ?_,
    fun piece => rfl, rfl, rfl, rfl⟩
  · rw [isComplete_foldl, isComplete, new, BitfieldMan.isSet_new]
    simp
  have heven : (hex storage.bitfield.bits).length % 2 = 0 := by
    rw [length_hex, Nat.mul_mod_right]
  refine (if_neg (not_not.mpr heven)).trans ?_
  refine (congrArg (· >>= _) (parseHex_hex _)).trans ?_
  refine (dif_pos layout.positive).trans ?_
  exact congrArg (fun bitfield => Except.ok (Sigma.mk layout (fromBitfield bitfield)))
    (fromBytes_bits storage.bitfield)

/-- After whole bytes in hexadecimal digits the next two bytes of the text are no whole
characters. -/
def CutsCharacter (hex : Bytes) : Prop :=
  ∃ front a b rest, hex = front ++ a :: b :: rest ∧ front.length % 2 = 0 ∧
    (∃ bytes, parseHex front = .ok bytes) ∧
    (isContinuation a || rest.head?.any isContinuation) = true

lemma parseHex_cons_eq_ok {a b : UInt8} {rest bytes : Bytes}
    (h : parseHex (a :: b :: rest) = .ok bytes) :
    (isContinuation a || rest.head?.any isContinuation) = false ∧
      ∃ value tail, hexPair a b = some value ∧ parseHex rest = .ok tail := by
  unfold parseHex at h
  split at h
  · cases h
  rename_i hw
  split at h
  · cases h
  next value hv =>
    obtain ⟨tail, ht, -⟩ := bind_eq_ok.mp h
    exact ⟨Bool.eq_false_iff.mpr hw, value, tail, hv, ht⟩

lemma parseHex_cut {a b : UInt8} {rest : Bytes}
    (hc : (isContinuation a || rest.head?.any isContinuation)) :
    ∀ (n : Nat) {front bytes : Bytes}, front.length = 2 * n → parseHex front = .ok bytes →
      parseHex (front ++ a :: b :: rest) = .error .panic
  | 0, front, bytes, hlen, _ => by
    obtain rfl := length_eq_zero_iff.mp hlen
    rw [nil_append, parseHex, if_pos hc]
    rfl
  | n + 1, x :: y :: front, bytes, hlen, h => by
    obtain ⟨hw, value, tail, hv, ht⟩ := parseHex_cons_eq_ok h
    have ih := parseHex_cut (b := b) hc n (by simp only [length_cons] at hlen; omega) ht
    change parseHex (x :: y :: (front ++ a :: b :: rest)) = _
    rw [parseHex]
    split
    · rfl
    · rw [hv]
      simp only [ih]
      rfl
  | n + 1, [x], bytes, hlen, _ => by simp only [length_singleton] at hlen; omega
  | n + 1, [], bytes, hlen, _ => by simp at hlen

lemma cuts_of_parseHex : ∀ {hex : Bytes}, parseHex hex = .error .panic → CutsCharacter hex
  | a :: b :: rest, h => by
    unfold parseHex at h
    split at h
    next hc =>
      exact ⟨[], a, b, rest, rfl, rfl, ⟨[], rfl⟩, hc⟩
    rename_i hw
    split at h
    · cases h
    rename_i value hv
    have hr : parseHex rest = .error .panic := by
      rcases except_bind_eq_error.mp h with hr | ⟨tail, -, hp⟩
      · exact hr
      · cases hp
    obtain ⟨front, x, y, tail, rfl, hlen, ⟨bytes, hb⟩, hc⟩ := cuts_of_parseHex hr
    refine ⟨a :: b :: front, x, y, tail, rfl, by simp only [length_cons]; omega,
      ⟨value :: bytes, ?_⟩, hc⟩
    have hh : (isContinuation a || front.head?.any isContinuation) = false := by
      cases front with
      | nil =>
        cases hs : isContinuation a with
        | false => rfl
        | true => exact absurd (by rw [hs]; rfl) hw
      | cons next front => exact Bool.eq_false_iff.mpr hw
    rw [parseHex, hh, hv]
    simp only [hb]
    rfl
  | [_], h => by cases h
  | [], h => by cases h

variable {hex : Bytes}

lemma parseHex_eq_panic_iff : parseHex hex = .error .panic ↔ CutsCharacter hex := by
  refine ⟨cuts_of_parseHex, ?_⟩
  rintro ⟨front, a, b, rest, rfl, hlen, ⟨bytes, hb⟩, hc⟩
  exact parseHex_cut hc (front.length / 2) (by omega) hb

/-- A control file is read without a panic exactly when its bits have an odd number of digits, or
are neither cut inside a character nor hexadecimal digits with pieces of no length. -/
theorem toStorage_panics_iff (control : ControlFile) :
    control.toStorage ≠ .error .panic ↔ (control.bitfield.length % 2 = 0 →
      ¬ CutsCharacter control.bitfield ∧
        (control.pieceLength = 0 → ∀ bytes, parseHex control.bitfield ≠ .ok bytes)) := by
  have hzero : ¬ 0 < control.pieceLength.toNat ↔ control.pieceLength = 0 := by
    rw [Nat.not_lt, Nat.le_zero, ← UInt32.toNat_inj]
    rfl
  rw [← parseHex_eq_panic_iff, ← hzero]
  unfold ControlFile.toStorage
  by_cases he : control.bitfield.length % 2 = 0
  · rw [if_neg (not_not.mpr he)]
    cases hp : parseHex control.bitfield with
    | error failure => cases failure <;> simp [he, bind, Except.bind]
    | ok bytes => by_cases hpos : 0 < control.pieceLength.toNat <;>
        simp [he, hpos, bind, Except.bind, pure, Except.pure, throw, throwThe, MonadExceptOf.throw]
  · simp [he, throw, throwThe, MonadExceptOf.throw]

/-- A character of two bytes after one digit, and no pieces of a length. -/
theorem damaged_control_panics :
    ControlFile.toStorage ⟨1, [], 1, 65536, ascii "0" ++ [0xC3, 0xA9] ++ ascii "0", none, none,
        [], []⟩ = .error .panic ∧
      ControlFile.toStorage ⟨1, [], 1, 0, ascii "00", none, none, [], []⟩ = .error .panic :=
  ⟨rfl, rfl⟩

/-! ### Resuming -/

structure Resumed (layout : Layout) where
  storage : PieceStorage layout
  createdAt : Bytes
  skippedPieces : Nat

def Resumed.fresh (layout : Layout) (now : Bytes) : Resumed layout := ⟨.new layout, now, 0⟩

section

variable {noResume : Bool} {control : Option ControlFile} {task : DownloadTask} {now : Bytes}
  {resumed : Resumed layout}

end

/-! ### What a resumed download gives -/

/-- A byte of the output that was written, not only allocated. -/
def OutputEntry.Holds (self : OutputEntry) (written : Nat → Bool) (position : Nat) : Prop :=
  ∃ content, self = .file content ∧ position < content.length ∧ written position = true

namespace SegmentedRun

end SegmentedRun

end Aioduct.Cli
