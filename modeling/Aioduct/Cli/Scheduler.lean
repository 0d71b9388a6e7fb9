import Aioduct.Cli.SegmentMan

/-!
# Scheduler of several files

`download/scheduler.rs`: the files are in the order in which they were added, their status is kept
by their id.
-/

namespace Aioduct.Cli

open Wire List

inductive FileStatus where
  | pending
  | active
  | complete
  | failed
  deriving DecidableEq

def FileStatus.finished (self : FileStatus) : Bool := self == .complete || self == .failed

structure FileEntry where
  id : Nat
  url : Bytes
  filename : Bytes
  layout : Layout
  segmentMan : SegmentMan layout
  ifRange : Option Bytes := none
  resumeSkippedPieces : Nat := 0

def FileEntry.totalSize (self : FileEntry) : Nat := self.layout.totalLength.toNat

structure WorkAssignment where
  fileId : Nat
  index : Nat
  offset : Nat
  length : Nat
  url : Bytes
  fileName : Bytes
  totalSize : Nat
  ifRange : Option Bytes

structure SchedulerInner where
  files : List FileEntry := []
  fileStatus : List FileStatus := []
  workerFile : List (Option Nat)
  fileWorkerCount : List Nat := []
  resumeSkippedPieces : List Nat := []
  fileLastError : List (Option Bytes) := []
  totalWorkers : Nat

def padTo {α : Type} (l : List α) (index : Nat) (a : α) : List α :=
  l ++ List.replicate (index + 1 - l.length) a

namespace SchedulerInner

def new (totalWorkers : Nat) : SchedulerInner where
  workerFile := List.replicate totalWorkers none
  totalWorkers := totalWorkers

variable (self : SchedulerInner)

def addFile (entry : FileEntry) : SchedulerInner :=
  { self with
    files := self.files ++ [entry]
    fileStatus := (padTo self.fileStatus entry.id .pending).set entry.id .active
    fileWorkerCount := (padTo self.fileWorkerCount entry.id 0).set entry.id 0
    resumeSkippedPieces :=
      (padTo self.resumeSkippedPieces entry.id 0).set entry.id entry.resumeSkippedPieces
    fileLastError := (padTo self.fileLastError entry.id none).set entry.id none }

def allDone : Bool :=
  !self.files.isEmpty && (self.fileStatus.take self.files.length).all FileStatus.finished

def smallFileThreshold : Nat := 2 * 1024 * 1024

def eligible (file : FileEntry) : Bool :=
  let remaining := file.segmentMan.storage.remainingPieces
  let currentWorkers := (self.fileWorkerCount[file.id]?).getD 0
  let maxWorkers :=
    if file.totalSize < smallFileThreshold then min remaining 2
    else min remaining (self.totalWorkers % 2 ^ 32)
  self.fileStatus[file.id]? == some .active && remaining != 0 && currentWorkers < maxWorkers

-- the scores are floating-point numbers, of which only the order is used
variable {Score : Type} [LT Score] [DecidableLT Score]
  (score : (file : FileEntry) → (currentWorkers : Nat) → (sticky : Bool) → Score)

def bestFile (self : SchedulerInner) (prevFile : Option Nat) : Option Nat :=
  (self.files.zipIdx.foldl (fun best (file, idx) =>
    if self.eligible file then
      let s := score file ((self.fileWorkerCount[file.id]?).getD 0) (prevFile == some file.id)
      match best with
      | none => some (idx, s)
      | some (_, highest) => if highest < s then some (idx, s) else best
    else best) (none : Option (Nat × Score))).map (·.1)

def releaseWorker (self : SchedulerInner) (worker : Nat) : SchedulerInner :=
  match (self.workerFile[worker]?).join with
  | some prevFile =>
    { self with
      workerFile := self.workerFile.set worker none
      fileWorkerCount := self.fileWorkerCount.modify prevFile (· - 1) }
  | none => self

def assign (self : SchedulerInner) (worker idx : Nat) (file : FileEntry) :
    Option WorkAssignment × SchedulerInner :=
  let (piece, segmentMan) := file.segmentMan.nextPiece
  let self := { self with files := self.files.set idx { file with segmentMan := segmentMan } }
  match piece with
  | none => (none, self)
  | some index =>
    (some
      { fileId := file.id
        index := index
        offset := file.layout.offset index
        length := file.layout.length index
        url := file.url
        fileName := file.filename
        totalSize := file.totalSize
        ifRange := file.ifRange },
      { self with
        workerFile := self.workerFile.set worker (some file.id)
        fileWorkerCount := self.fileWorkerCount.modify file.id (· + 1)
        fileStatus :=
          if self.fileStatus[file.id]? = some .pending then self.fileStatus.set file.id .active
          else self.fileStatus })

def nextWork (self : SchedulerInner) (worker : Nat) : Option WorkAssignment × SchedulerInner :=
  let prevFile := (self.workerFile[worker]?).join
  let self := self.releaseWorker worker
  if self.allDone then (none, self)
  else
    match self.bestFile score prevFile with
    | none => (none, self)
    | some idx =>
      match self.files[idx]? with
      | none => (none, self)
      | some file => self.assign worker idx file

def updateFile (id : Nat) (f : FileEntry → FileEntry) : List FileEntry → List FileEntry
  | [] => []
  | file :: files => if file.id = id then f file :: files else file :: updateFile id f files

def onPiece (file : FileEntry) (index : Nat)
    (f : {layout : Layout} → SegmentMan layout → Fin layout.totalPieces → SegmentMan layout) :
    FileEntry :=
  -- an index that is no piece's is an error of the caller
  if h : index < file.layout.totalPieces then
    { file with segmentMan := f file.segmentMan ⟨index, h⟩ }
  else file

def setStatus (id : Nat) (status : FileStatus) : SchedulerInner :=
  { self with fileStatus := self.fileStatus.set id status }

def markFileComplete (id : Nat) : SchedulerInner := self.setStatus id .complete

def markFileFailed (id : Nat) : SchedulerInner := self.setStatus id .failed

def completePiece (self : SchedulerInner) (id index : Nat) : SchedulerInner :=
  let self := { self with files := updateFile id (onPiece · index .completePiece) self.files }
  match self.files.find? (·.id == id) with
  | some file => if file.segmentMan.isComplete then self.markFileComplete id else self
  | none => self

def failPiece (self : SchedulerInner) (id index : Nat) : SchedulerInner :=
  { self with files := updateFile id (onPiece · index .failPiece) self.files }

def recordPieceRetry (self : SchedulerInner) (id index : Nat) (error : Bytes) : SchedulerInner :=
  { self with
    files := updateFile id (onPiece · index fun man piece => man.recordPieceRetry piece error)
      self.files
    fileLastError := self.fileLastError.set id (some error) }

def markPieceFailed (self : SchedulerInner) (id index : Nat) (error : Bytes) : SchedulerInner :=
  { self with
    files := updateFile id (onPiece · index fun man piece => man.markPieceFailed piece error)
      self.files
    fileLastError := self.fileLastError.set id (some error)
    fileStatus := self.fileStatus.set id .failed }

def ids : List Nat := self.files.map (·.id)

/-- Files have different ids and a status; what is not a file is pending. -/
structure Registered (s : SchedulerInner) : Prop where
  nodup : s.ids.Nodup
  status : ∀ id ∈ s.ids, id < s.fileStatus.length
  gaps : ∀ (id : Nat) (status : FileStatus), id ∉ s.ids → s.fileStatus[id]? = some status →
    status = .pending

lemma registered_new (totalWorkers : Nat) : Registered (new totalWorkers) :=
  ⟨nodup_nil, fun _ h => absurd h not_mem_nil, fun _ _ _ h => by cases h⟩

structure Touches (s s' : SchedulerInner) : Prop where
  ids : s'.ids = s.ids
  status : s'.fileStatus = s.fileStatus ∨
    ∃ id ∈ s.ids, ∃ status, s'.fileStatus = s.fileStatus.set id status

variable {s s' : SchedulerInner} {entry file : FileEntry} {id idx totalWorkers : Nat}

lemma Registered.of_touches (h : Registered s) (ht : Touches s s') : Registered s' := by
  obtain ⟨hi, hs⟩ := ht
  rcases hs with heq | ⟨id, hid, status, heq⟩
  · exact ⟨hi ▸ h.nodup, hi ▸ heq ▸ h.status, hi ▸ heq ▸ h.gaps⟩
  refine ⟨hi ▸ h.nodup, fun other ho => ?_, fun other status' ho hg => ?_⟩
  · rw [heq, length_set]
    exact h.status other (hi ▸ ho)
  rw [hi] at ho
  have hne : id ≠ other := fun hsam => ho (hsam ▸ hid)
  rw [heq, getElem?_set_ne hne] at hg
  exact h.gaps other status' ho hg

lemma Touches.trans_ids {s'' : SchedulerInner} (h : s'.ids = s.ids)
    (hs : s'.fileStatus = s.fileStatus) (h' : Touches s' s'') : Touches s s'' := by
  refine ⟨h'.ids.trans h, ?_⟩
  rw [← hs, ← h]
  exact h'.status

lemma getElem?_padTo {α : Type} (l : List α) (index : Nat) (a : α) (i : Nat) {b : α}
    (h : (padTo l index a)[i]? = some b) : l[i]? = some b ∨ b = a := by
  rw [padTo, getElem?_append] at h
  split at h
  · exact .inl h
  rw [getElem?_replicate] at h
  split at h
  · exact .inr (Option.some.inj h).symm
  · cases h

lemma length_padTo {α : Type} (l : List α) (index : Nat) (a : α) :
    index < (padTo l index a).length ∧ l.length ≤ (padTo l index a).length := by
  simp only [padTo, length_append, length_replicate]
  omega

lemma Registered.addFile (h : Registered s) (hn : entry.id ∉ s.ids) :
    Registered (s.addFile entry) := by
  obtain ⟨hidx, hlen⟩ := length_padTo s.fileStatus entry.id .pending
  have hi : (s.addFile entry).ids = s.ids ++ [entry.id] := by simp [ids, SchedulerInner.addFile]
  refine ⟨?_, fun id hid => ?_, fun id status hid hg => ?_⟩
  · rw [hi, nodup_append]
    refine ⟨h.nodup, nodup_singleton _, fun a ha b hb heq => ?_⟩
    rw [mem_singleton.mp hb] at heq
    exact hn (heq ▸ ha)
  · rw [hi, mem_append, mem_singleton] at hid
    simp only [SchedulerInner.addFile, length_set]
    rcases hid with hid | rfl
    · exact lt_of_lt_of_le (h.status id hid) hlen
    · exact hidx
  rw [hi, mem_append, not_or, mem_singleton] at hid
  simp only [SchedulerInner.addFile, getElem?_set_ne (Ne.symm hid.2)] at hg
  rcases getElem?_padTo _ _ _ _ hg with hg | rfl
  · exact h.gaps id status hid.1 hg
  · rfl

lemma ids_updateFile {f : FileEntry → FileEntry} (h : ∀ file, (f file).id = file.id)
    (files : List FileEntry) : (updateFile id f files).map (·.id) = files.map (·.id) := by
  induction files with
  | nil => rfl
  | cons file files ih =>
    unfold updateFile
    split
    · simp [h]
    · simp [ih]

lemma id_onPiece (file : FileEntry) (index : Nat)
    (f : {layout : Layout} → SegmentMan layout → Fin layout.totalPieces → SegmentMan layout) :
    (onPiece file index f).id = file.id := by
  unfold onPiece
  split <;> rfl

lemma ids_set (h : s.files[idx]? = some file) (man : SegmentMan file.layout) :
    (s.files.set idx { file with segmentMan := man }).map (·.id) = s.ids := by
  rw [map_set]
  apply ext_getElem?
  intro i
  by_cases hi : idx = i
  · subst hi
    rw [getElem?_set_self', ids, getElem?_map, h]
    rfl
  · rw [getElem?_set_ne hi]
    rfl

lemma touches_assign {worker : Nat} (h : s.files[idx]? = some file) :
    Touches s (s.assign worker idx file).2 := by
  have hm : file.id ∈ s.ids := mem_map.mpr ⟨file, mem_of_getElem? h, rfl⟩
  have hi := ids_set h file.segmentMan.nextPiece.2
  unfold assign
  simp only
  split
  · exact ⟨hi, .inl rfl⟩
  refine ⟨hi, ?_⟩
  split
  · exact .inr ⟨file.id, hm, _, rfl⟩
  · exact .inl rfl

inductive SchedulerOp where
  | addFile (entry : FileEntry)
  | nextWork (worker : Nat)
  | completePiece (id index : Nat)
  | failPiece (id index : Nat)
  | recordPieceRetry (id index : Nat) (error : Bytes)
  | markPieceFailed (id index : Nat) (error : Bytes)
  | markFileComplete (id : Nat)
  | markFileFailed (id : Nat)

def step (self : SchedulerInner) : SchedulerOp → SchedulerInner
  | .addFile entry => self.addFile entry
  | .nextWork worker => (self.nextWork score worker).2
  | .completePiece id index => self.completePiece id index
  | .failPiece id index => self.failPiece id index
  | .recordPieceRetry id index error => self.recordPieceRetry id index error
  | .markPieceFailed id index error => self.markPieceFailed id index error
  | .markFileComplete id => self.markFileComplete id
  | .markFileFailed id => self.markFileFailed id

/-- A file is added under a new id, and only files that were added make progress. -/
def Allowed (self : SchedulerInner) : SchedulerOp → Prop
  | .addFile entry => entry.id ∉ self.ids
  | .nextWork _ => True
  | .completePiece id _ | .failPiece id _ | .recordPieceRetry id _ _ | .markPieceFailed id _ _
  | .markFileComplete id | .markFileFailed id => id ∈ self.ids

inductive Reachable (totalWorkers : Nat) : SchedulerInner → Prop
  | new : Reachable totalWorkers (.new totalWorkers)
  | step {s : SchedulerInner} {op : SchedulerOp} (h : Reachable totalWorkers s)
      (hallowed : s.Allowed op) : Reachable totalWorkers (s.step score op)

lemma touches_setStatus (h : id ∈ s.ids) (status : FileStatus) :
    Touches s (s.setStatus id status) := ⟨rfl, .inr ⟨id, h, status, rfl⟩⟩

lemma touches_nextWork (s : SchedulerInner) (worker : Nat) :
    Touches s (s.nextWork score worker).2 := by
  have hr : (s.releaseWorker worker).ids = s.ids ∧
      (s.releaseWorker worker).fileStatus = s.fileStatus := by
    unfold releaseWorker
    split <;> exact ⟨rfl, rfl⟩
  obtain ⟨hi, hs⟩ := hr
  unfold nextWork
  simp only
  split
  · exact ⟨hi, .inl hs⟩
  split
  · exact ⟨hi, .inl hs⟩
  split
  · exact ⟨hi, .inl hs⟩
  next file hf =>
    exact .trans_ids hi hs (touches_assign hf)

lemma touches_completePiece (h : id ∈ s.ids) (index : Nat) :
    Touches s (s.completePiece id index) := by
  let changed : SchedulerInner :=
    { s with files := updateFile id (onPiece · index .completePiece) s.files }
  have hi : changed.ids = s.ids := ids_updateFile (fun file => id_onPiece file index _) s.files
  unfold completePiece
  simp only
  split
  · split
    · exact .trans_ids hi rfl (touches_setStatus (s := changed) (hi ▸ h) .complete)
    · exact ⟨hi, .inl rfl⟩
  · exact ⟨hi, .inl rfl⟩

lemma Registered.step (h : Registered s) {op : SchedulerOp} (ha : s.Allowed op) :
    Registered (s.step score op) := by
  cases op with
  | addFile entry => exact h.addFile ha
  | nextWork worker => exact h.of_touches (touches_nextWork score s worker)
  | completePiece id index => exact h.of_touches (touches_completePiece ha index)
  | failPiece id index | recordPieceRetry id index error =>
    exact h.of_touches ⟨ids_updateFile (fun file => id_onPiece file index _) s.files, .inl rfl⟩
  | markPieceFailed id index error =>
    exact h.of_touches ⟨ids_updateFile (fun file => id_onPiece file index _) s.files,
      .inr ⟨id, ha, .failed, rfl⟩⟩
  | markFileComplete id => exact h.of_touches (touches_setStatus ha .complete)
  | markFileFailed id => exact h.of_touches (touches_setStatus ha .failed)

lemma Reachable.registered (h : Reachable score totalWorkers s) : Registered s := by
  induction h with
  | new => exact registered_new totalWorkers
  | step _ ha ih => exact ih.step score ha

def FileFinished (self : SchedulerInner) (id : Nat) : Prop :=
  ∃ status, self.fileStatus[id]? = some status ∧ status.finished = true

def Contiguous (self : SchedulerInner) : Prop := ∀ id < self.files.length, id ∈ self.ids

lemma Registered.length_le (h : Registered s) : s.files.length ≤ s.fileStatus.length := by
  have hs : s.ids ⊆ range s.fileStatus.length :=
    fun id hid => mem_range.mpr (h.status id hid)
  have hle := (subperm_of_subset h.nodup hs).length_le
  rwa [length_range, ids, length_map] at hle

lemma Registered.contiguous_iff (h : Registered s) :
    s.Contiguous ↔ ∀ id ∈ s.ids, id < s.files.length := by
  have hlen : s.ids.length = s.files.length := length_map _
  constructor
  · intro hall id hid
    have hs : range s.files.length ⊆ s.ids := fun i hi => hall i (mem_range.mp hi)
    have hp := (subperm_of_subset nodup_range hs).perm_of_length_le (by rw [length_range, hlen])
    exact mem_range.mp (hp.mem_iff.mpr hid)
  intro hall id hid
  have hs : s.ids ⊆ range s.files.length := fun i hi => mem_range.mpr (hall i hi)
  have hp := (subperm_of_subset h.nodup hs).perm_of_length_le (by rw [length_range, hlen])
  exact hp.mem_iff.mpr (mem_range.mpr hid)

lemma Registered.allDone_iff (h : Registered s) :
    s.allDone ↔ s.files ≠ [] ∧ ∀ id < s.files.length, s.FileFinished id := by
  have hle := h.length_le
  rw [allDone, Bool.and_eq_true, Bool.not_eq_true', isEmpty_eq_false_iff, all_eq_true]
  refine and_congr_right fun _ => ⟨fun hall id hid => ?_, fun hall status hs => ?_⟩
  · have hlt : id < s.fileStatus.length := lt_of_lt_of_le hid hle
    refine ⟨s.fileStatus[id], getElem?_eq_getElem hlt, hall _ ?_⟩
    exact mem_take_iff_getElem.mpr ⟨id, by omega, rfl⟩
  obtain ⟨id, hid, rfl⟩ := mem_take_iff_getElem.mp hs
  obtain ⟨status, hg, hf⟩ := hall id (by omega)
  rw [getElem?_eq_getElem (by omega)] at hg
  rwa [Option.some.inj hg]

lemma Registered.mem_of_finished (h : Registered s) (hf : s.FileFinished id) : id ∈ s.ids := by
  by_contra hid
  obtain ⟨status, hg, hs⟩ := hf
  rw [h.gaps id status hid hg] at hs
  cases hs

/-- The scheduler knows when the files are finished exactly as long as one of them is not, or
their ids are the first ones. -/
theorem allDone_correct_iff {totalWorkers : Nat} {s : SchedulerInner}
    (h : Reachable score totalWorkers s) :
    (s.allDone = true ↔ s.files ≠ [] ∧ ∀ id ∈ s.ids, s.FileFinished id) ↔
      s.Contiguous ∨ ∃ id ∈ s.ids, ¬ s.FileFinished id := by
  have hr := h.registered
  rw [hr.allDone_iff]
  constructor
  · intro hiff
    by_cases hall : ∀ id ∈ s.ids, s.FileFinished id
    · refine .inl fun id hid => ?_
      have hne : s.files ≠ [] := by
        rintro hnil
        simp [hnil] at hid
      exact hr.mem_of_finished ((hiff.mpr ⟨hne, hall⟩).2 id hid)
    · simp only [not_forall] at hall
      obtain ⟨id, hid, hu⟩ := hall
      exact .inr ⟨id, hid, hu⟩
  rintro (hc | ⟨id, hid, hu⟩)
  · have hb := hr.contiguous_iff.mp hc
    exact and_congr_right fun _ => ⟨fun hall id hid => hall id (hb id hid),
      fun hall id hid => hall id (hc id hid)⟩
  refine iff_of_false (fun hd => ?_) (fun hs => hu (hs.2 id hid))
  -- the finished ids below the number of files are ids of files, so they are all of them
  have hc : s.Contiguous :=
    fun i hi => hr.mem_of_finished (hd.2 i hi)
  exact hu (hd.2 id (hr.contiguous_iff.mp hc id hid))

def secondTask : FileEntry where
  id := 1
  url := ascii "http://a/"
  filename := ascii "a"
  layout := ⟨1, 65536, positive_65536⟩
  segmentMan := .new (.new _) 5

def onlySecond : SchedulerInner := (new 1).addFile secondTask

theorem allDone_correct_onlySecond :
    Reachable (fun _ _ _ => (0 : Nat)) 1 onlySecond ∧
      ((onlySecond.allDone = true ↔
          onlySecond.files ≠ [] ∧ ∀ id ∈ onlySecond.ids, onlySecond.FileFinished id) ↔
        onlySecond.Contiguous ∨ ∃ id ∈ onlySecond.ids, ¬ onlySecond.FileFinished id) := by
  have hr : Reachable (fun _ _ _ => (0 : Nat)) 1
      ((new 1).step (fun _ _ _ => 0) (.addFile secondTask)) := .step .new not_mem_nil
  exact ⟨hr, allDone_correct_iff _ hr⟩

/-- Its piece is given to the worker and completed, and the file with it; the scheduler still waits
for the first task. -/
theorem second_task_never_done : let given := onlySecond.nextWork (fun _ _ _ => (0 : Nat)) 0
    let s := given.2.completePiece 1 0
    given.1.map (fun work => (work.fileId, work.index)) = some (1, 0) ∧
      s.ids = [1] ∧ s.fileStatus[1]? = some .complete ∧ s.allDone = false := by decide

end SchedulerInner

end Aioduct.Cli
