import Aioduct.Cli.PoolEnd

/-!
# The accounts of a pool

The scheduler keeps which file a worker is on and which pieces are given out. A worker gives back
what it has when it asks for more; one that leaves its loop in another way does not.
-/

namespace Aioduct.Cli

open Wire SchedulerInner List Option PoolWorker PieceStorage PoolShared BitfieldMan

variable {index idx a p i : Nat} {file : FileEntry} {s' shared : PoolShared} {worker' : PoolWorker}
  {Score : Type} [LT Score] [DecidableLT Score]
  {score : (file : FileEntry) → (currentWorkers : Nat) → (sticky : Bool) → Score}
  {f : {layout : Layout} → SegmentMan layout → Fin layout.totalPieces → SegmentMan layout}

def PoolWorker.piece : PoolWorker → Option (Nat × Nat)
  | .downloading work _ | .received work _ | .written work | .failed work _ _ | .retried work _ _
  | .done (.writeFailed work _) => some (work.fileId, work.index)
  | _ => none

variable {worker : PoolWorker} {id : Nat}

lemma PoolWorker.assigned_of_piece (h : worker.piece = some (id, index)) :
    worker.assigned = some id := by
  unfold piece at h
  split at h
  all_goals first | (cases h; rfl) | cases h

namespace SchedulerInner

variable {s : SchedulerInner}

def Counted (s : SchedulerInner) : Prop :=
  ∀ id ∈ s.ids, s.fileWorkerCount[id]? = some (s.workerFile.count (some id))

lemma Counted.releaseWorker (h : s.Counted) {worker : Nat} {previous : Option Nat}
    (hp : s.workerFile[worker]? = some previous) :
    (s.releaseWorker worker).Counted ∧
      (s.releaseWorker worker).workerFile = s.workerFile.set worker none := by
  obtain ⟨hlt, hg⟩ := List.getElem?_eq_some_iff.mp hp
  cases previous with
  | none =>
    have hs : s.releaseWorker worker = s := by
      rw [SchedulerInner.releaseWorker, hp]
      rfl
    rw [hs, ← hg, set_getElem_self]
    exact ⟨h, rfl⟩
  | some file =>
    have hr : s.releaseWorker worker = { s with
        workerFile := s.workerFile.set worker none
        fileWorkerCount := s.fileWorkerCount.modify file (· - 1) } := by
      rw [SchedulerInner.releaseWorker, hp]
      rfl
    rw [hr]
    refine ⟨fun id hid => ?_, rfl⟩
    rw [getElem?_modify, h id hid, count_set hlt, hg]
    by_cases heq : file = id
    · simp [heq]
    · simp [heq]

lemma Counted.give (h : s.Counted) {worker file : Nat} (hnone : s.workerFile[worker]? = some none) :
    ∀ id ∈ s.ids, (s.fileWorkerCount.modify file (· + 1))[id]? =
      some ((s.workerFile.set worker (some file)).count (some id)) := by
  intro id hid
  obtain ⟨hlt, hg⟩ := List.getElem?_eq_some_iff.mp hnone
  rw [getElem?_modify, h id hid, count_set hlt, hg]
  by_cases heq : file = id
  · simp [heq]
  · simp [heq]

def InRange (s : SchedulerInner) : Prop :=
  ∀ file ∈ s.files, ∀ index ∈ file.segmentMan.storage.inFlight, index < file.layout.totalPieces

def InFlight (s : SchedulerInner) (id index : Nat) : Prop :=
  ∃ file ∈ s.files, file.id = id ∧ index ∈ file.segmentMan.storage.inFlight

lemma mem_updateFile {f : FileEntry → FileEntry} {files : List FileEntry}
    (hnodup : (files.map (·.id)).Nodup) : file ∈ updateFile id f files ↔
      file ∈ files ∧ file.id ≠ id ∨ ∃ old ∈ files, old.id = id ∧ file = f old := by
  induction files with
  | nil => simp [updateFile]
  | cons first files ih =>
    rw [map_cons, nodup_cons] at hnodup
    unfold updateFile
    split
    next hid =>
      have hne : ∀ other ∈ files, other.id ≠ id := fun other ho heq =>
        hnodup.1 (hid ▸ heq ▸ mem_map_of_mem ho)
      grind
    · rw [mem_cons, ih hnodup.2]
      grind

lemma inFlight_updateFile (hnodup : s.ids.Nodup) (hr : s.InRange) {kept : Prop}
    (hf : ∀ {layout : Layout} (man : SegmentMan layout) (piece : Fin layout.totalPieces) (p : Nat),
      p ∈ (f man piece).storage.inFlight ↔ p ∈ man.storage.inFlight ∧ (p = piece.val → kept))
    {s' : SchedulerInner} (hfil : s'.files = updateFile id (onPiece · index f) s.files) :
    s'.InRange ∧ ∀ id' p, s'.InFlight id' p ↔
      s.InFlight id' p ∧ ((id', p) = (id, index) → kept) := by
  have hon : ∀ file ∈ s.files, (onPiece file index f).layout = file.layout ∧
      ∀ p, p ∈ (onPiece file index f).segmentMan.storage.inFlight ↔
        p ∈ file.segmentMan.storage.inFlight ∧ (p = index → kept) := by
    intro file hm
    by_cases hlt : index < file.layout.totalPieces
    · rw [show onPiece file index f = _ from dif_pos hlt]
      exact ⟨rfl, hf file.segmentMan ⟨index, hlt⟩⟩
    · rw [show onPiece file index f = file from dif_neg hlt]
      refine ⟨rfl, fun p => (and_iff_left_of_imp fun hp heq => absurd (hr file hm p hp) ?_).symm⟩
      rwa [heq]
  constructor
  · intro file' hf' p hp
    rw [hfil, mem_updateFile hnodup] at hf'
    rcases hf' with ⟨hm, -⟩ | ⟨file, hm, -, rfl⟩
    · exact hr file' hm p hp
    · exact (hon file hm).1 ▸ hr file hm p (((hon file hm).2 p).mp hp).1
  intro id' p
  simp only [InFlight, hfil, mem_updateFile hnodup]
  constructor
  · rintro ⟨file', ⟨hm, hne⟩ | ⟨file, hm, -, rfl⟩, rfl, hp⟩
    · exact ⟨⟨file', hm, rfl, hp⟩, fun heq => absurd (congrArg Prod.fst heq) hne⟩
    · obtain ⟨hin, hk⟩ := ((hon file hm).2 p).mp hp
      exact ⟨⟨file, hm, (id_onPiece file index f).symm, hin⟩, fun heq => hk (congrArg Prod.snd heq)⟩
  · rintro ⟨⟨file, hm, rfl, hp⟩, hk⟩
    by_cases hid : file.id = id
    · refine ⟨_, .inr ⟨file, hm, hid, rfl⟩, id_onPiece file index f,
        ((hon file hm).2 p).mpr ⟨hp, fun heq => hk ?_⟩⟩
      rw [hid, heq]
    · exact ⟨file, .inl ⟨hm, hid⟩, rfl, hp⟩

end SchedulerInner

/-! ### Runs -/

/-- The file of a worker and the pieces that are given out, before and after its turn. -/
structure PoolShared.Books (s s' : PoolShared) (i : Nat) (worker worker' : PoolWorker) : Prop where
  workerFile : s'.scheduler.workerFile = s.scheduler.workerFile.set i worker'.assigned
  counted : s'.scheduler.Counted
  inRange : s'.scheduler.InRange
  inFlight : ∀ id index, s'.scheduler.InFlight id index →
    worker'.piece = some (id, index) ∨
      s.scheduler.InFlight id index ∧ worker.piece ≠ some (id, index)

namespace Pool

/-- What the scheduler has of the workers is what they do. -/
structure Kept (s : Pool) : Prop where
  workerFile : s.shared.scheduler.workerFile = s.workers.map PoolWorker.assigned
  counted : s.shared.scheduler.Counted
  inRange : s.shared.scheduler.InRange
  held : ∀ id index, s.shared.scheduler.InFlight id index →
    ∃ worker ∈ s.workers, worker.piece = some (id, index)

variable {s : Pool}

lemma Kept.of_books (h : s.Kept)
    (hw : s.workers[i]? = some worker) (hb : s.shared.Books shared i worker worker') :
    Kept ⟨shared, s.workers.set i worker'⟩ := by
  obtain ⟨hlt, hg⟩ := List.getElem?_eq_some_iff.mp hw
  refine ⟨?_, hb.counted, hb.inRange, fun id index hin => ?_⟩
  · rw [hb.workerFile, h.workerFile, map_set]
  rcases hb.inFlight id index hin with hp | ⟨hbef, hne⟩
  · exact ⟨worker', mem_set hlt _, hp⟩
  -- another worker has the piece
  obtain ⟨other, ho, hp⟩ := h.held id index hbef
  obtain ⟨j, hj⟩ := mem_iff_getElem?.mp ho
  have hij : i ≠ j := by
    rintro rfl
    rw [some.inj (hw.symm.trans hj)] at hne
    exact hne hp
  refine ⟨other, mem_of_getElem? (i := j) ?_, hp⟩
  rw [getElem?_set_ne hij, hj]

def assignedTo (self : Pool) (id : Nat) : Nat :=
  (self.workers.zip self.shared.scheduler.workerFile).countP fun pair =>
    !pair.1.exited && pair.2 == some id

lemma Kept.assignedTo_eq (h : s.Kept) (id : Nat) : s.assignedTo id =
    s.workers.countP fun worker => !worker.exited && worker.assigned == some id := by
  rw [assignedTo, h.workerFile, ← map_prod_left_eq_zip, countP_map]
  rfl

/-- No piece is lost with its worker: the pieces of an active file that are given out are those of
workers that go on, and a file that no worker is on is open to the next one that asks. -/
structure Accounted (s : Pool) : Prop where
  held : ∀ file ∈ s.shared.scheduler.files,
    s.shared.scheduler.fileStatus[file.id]? = some .active →
    ∀ index ∈ file.segmentMan.storage.inFlight,
      ∃ worker ∈ s.workers, worker.exited = false ∧ worker.piece = some (file.id, index)
  counted : ∀ id ∈ s.shared.scheduler.ids,
    s.shared.scheduler.fileWorkerCount[id]? = some (s.assignedTo id)
  unblocked : ∀ file ∈ s.shared.scheduler.files,
    s.shared.scheduler.fileStatus[file.id]? = some .active →
    file.segmentMan.storage.remainingPieces ≠ 0 → s.assignedTo file.id = 0 →
      s.shared.scheduler.fileWorkerCount[file.id]? = some 0 ∧
        (selectPiece file.segmentMan.storage).isSome = true

def LeftFree (s : Pool) : Prop :=
  ∀ worker ∈ s.workers, worker.exited = true → worker.assigned = none

lemma Kept.leftFree_of_counted (h : s.Kept)
    (hk : ∀ worker ∈ s.workers, ∀ id ∈ worker.assigned, id ∈ s.shared.scheduler.ids)
    (hc : ∀ id ∈ s.shared.scheduler.ids,
      s.shared.scheduler.fileWorkerCount[id]? = some (s.assignedTo id)) : s.LeftFree := by
  intro worker hw he
  cases ha : worker.assigned with
  | none => rfl
  | some id =>
    have hid := hk worker hw id ha
    have hs := some.inj ((h.counted id hid).symm.trans (hc id hid))
    rw [h.workerFile, h.assignedTo_eq, count_eq_countP, countP_map,
      countP_eq_countP_filter_add _ _ fun other : PoolWorker => !other.exited,
      countP_filter, countP_filter] at hs
    have hl : 0 < s.workers.countP fun other =>
        (other.assigned == some id) && !!other.exited :=
      countP_pos_iff.mpr ⟨worker, hw, by simp [ha, he]⟩
    simp only [Function.comp_def, Bool.and_comm] at hs hl
    omega

lemma Kept.accounted (h : s.Kept) (hfre : s.LeftFree) : s.Accounted := by
  have hh : ∀ id index, s.shared.scheduler.InFlight id index →
      ∃ worker ∈ s.workers, worker.exited = false ∧ worker.piece = some (id, index) := by
    intro id index hin
    obtain ⟨worker, hw, hp⟩ := h.held id index hin
    refine ⟨worker, hw, Bool.eq_false_iff.mpr fun he => ?_, hp⟩
    have ha := assigned_of_piece hp
    rw [hfre worker hw he] at ha
    cases ha
  have hc : ∀ id ∈ s.shared.scheduler.ids,
      s.shared.scheduler.fileWorkerCount[id]? = some (s.assignedTo id) := by
    intro id hid
    rw [h.counted id hid, h.workerFile, h.assignedTo_eq, count_eq_countP, countP_map]
    refine congrArg some (countP_congr fun worker hw => ?_)
    cases he : worker.exited with
    | false => simp
    | true => simp [hfre worker hw he]
  refine ⟨fun file hf _ index hin => hh _ _ ⟨file, hf, rfl, hin⟩, hc,
    fun file hf _ hr hnone => ⟨?_, ?_⟩⟩
  · rw [hc file.id (mem_map_of_mem hf), hnone]
  -- a piece that is given out would have a worker
  have ho : ∃ index < file.layout.totalPieces,
      file.segmentMan.storage.isComplete index = false := by
    by_contra hall
    simp only [not_exists, not_and, Bool.not_eq_false] at hall
    have hs := beq_iff_eq.mp ((file.segmentMan.storage.bitfield.isAllSet_iff).mpr hall)
    exact hr (by rw [remainingPieces, remainingCount, hs, Nat.sub_self])
  obtain ⟨index, hidx, hi⟩ := ho
  have hf' : index ∉ file.segmentMan.storage.inFlight := by
    intro hin
    obtain ⟨worker, hw, he, hp⟩ := hh _ _ ⟨file, hf, rfl, hin⟩
    rw [h.assignedTo_eq, countP_eq_zero] at hnone
    exact hnone worker hw (by simp [he, assigned_of_piece hp])
  refine selectPiece_isSome hidx ?_
  simpa [isAvailable, isComplete, hf'] using hi

end Pool

/-! ### What is given out -/

namespace SchedulerInner

variable {s : SchedulerInner} (score)

lemma bestFile_isSome {previous : Option Nat} (hm : file ∈ s.files) (he : s.eligible file) :
    (s.bestFile score previous).isSome := by
  obtain ⟨idx, hidx⟩ := mem_iff_getElem?.mp hm
  obtain ⟨front, back, heq⟩ := append_of_mem (mem_zipIdx_iff_getElem?.mpr hidx :
    (file, idx) ∈ s.files.zipIdx)
  rw [bestFile, isSome_map, heq, foldl_append, foldl_cons]
  refine foldlRecOn back _ (motive := fun best : Option (Nat × Score) => best.isSome) ?_ ?_
  · generalize foldl _ _ front = best
    cases best with
    | none => simp [he]
    | some best =>
      simp only [he, if_true]
      split <;> rfl
  · rintro best hb ⟨other, _⟩ _
    simp only
    split
    · split
      · rfl
      · split
        · rfl
        · exact hb
    · exact hb

lemma nextPiece_of_select {layout : Layout} {man : SegmentMan layout}
    {index : Fin layout.totalPieces} (h : selectPiece man.storage = some index) :
    man.nextPiece.1 = some index ∧ index.val ∉ man.storage.inFlight ∧
      ∀ p, p ∈ man.nextPiece.2.storage.inFlight ↔ p = index.val ∨ p ∈ man.storage.inFlight := by
  have ha := (Scan.middle_spec (middle_of_selectPiece h)).2
  simp only [isAvailable, Bool.and_eq_true, Bool.not_eq_true', contains_eq_mem,
    decide_eq_false_iff_not] at ha
  have hc : man.storage.allComplete = false := by
    refine Bool.eq_false_iff.mpr fun hall => ?_
    have hset := man.storage.allComplete_iff.mp hall index index.isLt
    rw [isComplete, ha.1] at hset
    cases hset
  simp only [SegmentMan.nextPiece, hc, Bool.false_eq_true, if_false, h]
  refine ⟨trivial, ha.2, fun p => ?_⟩
  by_cases heq : p = index.val <;> simp [markInFlight, heq]

lemma inFlight_given (hr : s.InRange) (hfile : s.files[idx]? = some file)
    {index : Fin file.layout.totalPieces} (hsel : selectPiece file.segmentMan.storage = some index)
    {t : SchedulerInner} (ht : t.files = (s.asked idx file).files) : t.InRange ∧
      ∀ id p, t.InFlight id p ↔ (file.id, index.val) = (id, p) ∨ s.InFlight id p := by
  obtain ⟨-, -, hin⟩ := nextPiece_of_select hsel
  have hm := mem_of_getElem? hfile
  constructor
  · intro other ho p hp
    rw [ht] at ho
    rcases mem_or_eq_of_mem_set ho with hold | rfl
    · exact hr other hold p hp
    · rcases (hin p).mp hp with rfl | hp
      · exact index.isLt
      · exact hr file hm p hp
  intro id p
  rw [InFlight, ht]
  constructor
  · rintro ⟨other, ho, rfl, hp⟩
    rcases mem_or_eq_of_mem_set ho with hold | rfl
    · exact .inr ⟨other, hold, rfl, hp⟩
    · rcases (hin p).mp hp with rfl | hp
      · exact .inl rfl
      · exact .inr ⟨file, hm, rfl, hp⟩
  have hnew := mem_set (List.getElem?_eq_some_iff.mp hfile).1
    { file with segmentMan := file.segmentMan.nextPiece.2 }
  rintro (heq | ⟨other, ho, rfl, hp⟩)
  · cases heq
    exact ⟨_, hnew, rfl, (hin _).mpr (.inl rfl)⟩
  · obtain ⟨j, hj⟩ := mem_iff_getElem?.mp ho
    by_cases hij : idx = j
    · subst hij
      cases hfile.symm.trans hj
      exact ⟨_, hnew, rfl, (hin p).mpr (.inr hp)⟩
    · refine ⟨other, mem_of_getElem? (i := j) ?_, rfl, hp⟩
      rw [asked, getElem?_set_ne hij, hj]

/-- What `next_work` does where a file that has room for a worker has a free piece: it gives out
such a piece, or there is no room. -/
lemma nextWork_free (hfree : ∀ file ∈ s.files, (s.releaseWorker i).eligible file →
      (selectPiece file.segmentMan.storage).isSome) :
    ((s.nextWork score i).1 = none ∧ (s.nextWork score i).2 = s.releaseWorker i ∧
        (s.allDone ∨ ∀ file ∈ s.files, (s.releaseWorker i).eligible file = false)) ∨
      ∃ idx file index, (s.releaseWorker i).bestFile score (s.workerFile[i]?).join = some idx ∧
        s.files[idx]? = some file ∧
        selectPiece file.segmentMan.storage = some index ∧
        (s.nextWork score i).1 = some (workOf file index) ∧
        (s.nextWork score i).2 = { (s.releaseWorker i).asked idx file with
          workerFile := (s.releaseWorker i).workerFile.set i (some file.id)
          fileWorkerCount := (s.releaseWorker i).fileWorkerCount.modify file.id (· + 1) } := by
  obtain ⟨hf, hs⟩ := s.releaseWorker_frame i
  have hd : (s.releaseWorker i).allDone = s.allDone := allDone_congr (by rw [ids, ids, hf]) hs
  unfold nextWork
  simp only
  split
  next hdone =>
    exact .inl ⟨rfl, rfl, .inl (hd ▸ hdone)⟩
  split
  next hb =>
    refine .inl ⟨rfl, rfl, .inr fun file hm => Bool.eq_false_iff.mpr fun he => ?_⟩
    exact absurd hb (ne_none_iff_isSome.mpr (bestFile_isSome score (hf ▸ hm) he))
  rename_i idx hb
  obtain ⟨file, hfile, he⟩ := bestFile_eq_some score hb
  rw [hf] at hfile
  obtain ⟨index, hi⟩ := isSome_iff_exists.mp (hfree file (mem_of_getElem? hfile) he)
  refine .inr ⟨idx, file, index, hb, hfile, hi, ?_⟩
  obtain ⟨hp, -⟩ := nextPiece_of_select hi
  rw [hf, hfile]
  simp only [assign, hp]
  rw [if_neg (by rw [status_of_eligible he]; decide)]
  exact ⟨rfl, rfl⟩

def maxWorkers (self : SchedulerInner) (file : FileEntry) : Nat :=
  let remaining := file.segmentMan.storage.remainingPieces
  if file.totalSize < smallFileThreshold then min remaining 2
  else min remaining (self.totalWorkers % 2 ^ 32)

end SchedulerInner

def FileEntry.given (file : FileEntry) : Nat :=
  countBelow file.segmentMan.storage.inFlight.contains file.layout.totalPieces

lemma given_le {workers : List PoolWorker}
    (h : ∀ index ∈ file.segmentMan.storage.inFlight,
      ∃ worker ∈ workers, worker.piece = some (file.id, index)) :
    file.given ≤ (workers.map PoolWorker.assigned).count (some file.id) := by
  rw [FileEntry.given, countBelow, countP_eq_length_filter, count_eq_countP, countP_map,
    countP_eq_length_filter]
  have hs : (((range file.layout.totalPieces).filter
      file.segmentMan.storage.inFlight.contains).map fun index => some (file.id, index)) ⊆
      (workers.filter ((· == some file.id) ∘ assigned)).map piece := by
    intro p hp
    obtain ⟨index, hi, rfl⟩ := mem_map.mp hp
    obtain ⟨worker, hw, hpie⟩ := h index (by simpa using (mem_filter.mp hi).2)
    refine mem_map.mpr ⟨worker, mem_filter.mpr ⟨hw, ?_⟩, hpie⟩
    simp [assigned_of_piece hpie]
  have hnodup := (nodup_range (n := file.layout.totalPieces)).filter
    file.segmentMan.storage.inFlight.contains
  have hle := (subperm_of_subset (hnodup.map (f := fun index => some (file.id, index))
    fun a b hab => by simpa using hab) hs).length_le
  simpa only [length_map] using hle

lemma selectPiece_of_given_lt (h : file.given < file.segmentMan.storage.remainingPieces) :
    (selectPiece file.segmentMan.storage).isSome := by
  by_contra hnone
  have hall : ∀ index < file.layout.totalPieces,
      file.segmentMan.storage.isAvailable index = false :=
    fun index hi => Bool.eq_false_iff.mpr fun ha => hnone (selectPiece_isSome hi ha)
  have hle : countBelow (fun index => !file.segmentMan.storage.bitfield.isSet index)
      file.layout.totalPieces ≤ file.given := by
    refine countP_mono_left fun index hi hset => ?_
    have ha := hall index (mem_range.mp hi)
    rw [isAvailable, hset, Bool.true_and] at ha
    simpa using ha
  have hsum := length_eq_countP_add_countP (bitAt file.segmentMan.storage.bitfield.bits)
    (l := range file.layout.totalPieces)
  rw [remainingPieces, remainingCount, file.segmentMan.storage.bitfield.counted] at h
  simp only [length_range, decide_not, Bool.decide_eq_true] at hsum
  simp only [countBelow, isSet] at hle h
  omega

namespace Pool

variable {s : Pool} {previous : Option Nat}

lemma Kept.free (h : s.Kept) (hw : s.workers[i]? = some (.choosing previous))
    (hm : file ∈ s.shared.scheduler.files)
    (he : (s.shared.scheduler.releaseWorker i).eligible file) :
    (selectPiece file.segmentMan.storage).isSome := by
  have hi : s.shared.scheduler.workerFile[i]? = some previous := by
    rw [h.workerFile, getElem?_map, hw]
    rfl
  obtain ⟨hc, hf⟩ := h.counted.releaseWorker hi
  obtain ⟨hfil, -⟩ := s.shared.scheduler.releaseWorker_frame i
  have hle : file.given ≤ ((s.workers.set i .idle).map assigned).count
      (some file.id) := by
    refine given_le fun index hin => ?_
    obtain ⟨worker, hwor, hp⟩ := h.held _ _ ⟨file, hm, rfl, hin⟩
    obtain ⟨j, hj⟩ := mem_iff_getElem?.mp hwor
    have hij : i ≠ j := by
      rintro rfl
      rw [some.inj (hj.symm.trans hw)] at hp
      cases hp
    exact ⟨worker, mem_of_getElem? (i := j) (by rw [getElem?_set_ne hij, hj]), hp⟩
  have hcou := hc file.id (mem_map.mpr ⟨file, hfil ▸ hm, rfl⟩)
  rw [hf, h.workerFile] at hcou
  rw [map_set, show idle.assigned = none from rfl] at hle
  simp only [eligible, hcou, getD_some, Bool.and_eq_true, decide_eq_true_eq] at he
  apply selectPiece_of_given_lt
  have hlt := he.2
  split at hlt
  all_goals exact lt_of_le_of_lt hle (lt_of_lt_of_le hlt (min_le_left _ _))

end Pool

section Turn

variable {maxRetries : Nat} {message : Error → Bytes} {s : PoolShared}

/-- The pieces of the other workers stay given out. The worker keeps its piece, or is given one that
nobody has. -/
structure PoolShared.Holds (s s' : PoolShared) (worker worker' : PoolWorker) : Prop where
  others : ∀ id index, s.scheduler.InFlight id index → worker.piece ≠ some (id, index) →
    s'.scheduler.InFlight id index
  own : ∀ id index, worker'.piece = some (id, index) →
    worker.piece = some (id, index) ∧
        (s.scheduler.InFlight id index → s'.scheduler.InFlight id index) ∨
      ¬s.scheduler.InFlight id index ∧ s'.scheduler.InFlight id index

variable (hc : s.scheduler.Counted) (hr : s.scheduler.InRange)
  (hw : s.scheduler.workerFile[i]? = some worker.assigned)
include hc hr hw

lemma PoolShared.books_of_same (hf : s'.scheduler.files = s.scheduler.files)
    (hfil : s'.scheduler.workerFile = s.scheduler.workerFile)
    (hcou : s'.scheduler.fileWorkerCount = s.scheduler.fileWorkerCount)
    (ha : worker'.assigned = worker.assigned) (hp : worker'.piece = worker.piece) :
    s.Books s' i worker worker' ∧ s.Holds s' worker worker' := by
  obtain ⟨hlt, hg⟩ := List.getElem?_eq_some_iff.mp hw
  have hin : ∀ id index, s'.scheduler.InFlight id index ↔ s.scheduler.InFlight id index := by
    intro id index
    rw [InFlight, hf, InFlight]
  refine ⟨⟨?_, ?_, ?_, fun id index h => ?_⟩, fun id index h _ => (hin id index).mpr h,
    fun id index h => .inl ⟨hp ▸ h, (hin id index).mpr⟩⟩
  · rw [hfil, ha, ← hg, set_getElem_self]
  · rwa [Counted, ids, hf, hfil, hcou]
  · rwa [InRange, hf]
  · rw [hp]
    exact or_iff_not_imp_left.mpr fun hne => ⟨(hin id index).mp h, hne⟩

variable (hnodup : s.scheduler.ids.Nodup)
include hnodup

lemma PoolShared.books_of_updateFile (kept : Prop)
    (hf : ∀ {layout : Layout} (man : SegmentMan layout) (piece : Fin layout.totalPieces) (p : Nat),
      p ∈ (f man piece).storage.inFlight ↔ p ∈ man.storage.inFlight ∧ (p = piece.val → kept))
    (hfil : s'.scheduler.files = updateFile id (onPiece · index f) s.scheduler.files)
    (hfi : s'.scheduler.workerFile = s.scheduler.workerFile)
    (hcou : s'.scheduler.fileWorkerCount = s.scheduler.fileWorkerCount)
    (ha : worker'.assigned = worker.assigned) (hp : worker.piece = some (id, index))
    (hk : worker'.piece = some (id, index) ∧ kept ∨ worker'.piece = none ∧ ¬kept) :
    s.Books s' i worker worker' ∧ s.Holds s' worker worker' := by
  obtain ⟨hlt, hg⟩ := List.getElem?_eq_some_iff.mp hw
  obtain ⟨hr', hin⟩ := inFlight_updateFile hnodup hr hf hfil
  have hi : s'.scheduler.ids = s.scheduler.ids := by
    rw [ids, hfil]
    exact ids_updateFile (fun file => id_onPiece file index f) s.scheduler.files
  refine ⟨⟨?_, fun other ho => ?_, hr', fun id' p h => ?_⟩, fun id' p h hne => ?_, fun id' p h => ?_⟩
  · rw [hfi, ha, ← hg, set_getElem_self]
  · rw [hcou, hfi]
    exact hc other (hi ▸ ho)
  · obtain ⟨hb, hkept⟩ := (hin id' p).mp h
    by_cases heq : (id', p) = (id, index)
    · exact .inl (heq ▸ (hk.resolve_right fun hn => hn.2 (hkept heq)).1)
    · exact .inr ⟨hb, fun hs => heq (some.inj (hs.symm.trans hp))⟩
  · exact (hin id' p).mpr ⟨h, fun heq => absurd (heq ▸ hp) hne⟩
  · rcases hk with ⟨hsam, hkept⟩ | ⟨hnone, -⟩
    · exact .inl ⟨hp.trans (hsam.symm.trans h), fun hin' => (hin id' p).mpr ⟨hin', fun _ => hkept⟩⟩
    · cases hnone.symm.trans h

omit hc hr hw hnodup in
lemma mem_filter_ne {l : List Nat} : p ∈ l.filter (· != a) ↔ p ∈ l ∧ (p = a → False) := by
  simp

lemma PoolShared.books (input : PoolInput)
    (hfree : ∀ previous, worker = .choosing previous → ∀ file ∈ s.scheduler.files,
      (s.scheduler.releaseWorker i).eligible file →
        (selectPiece file.segmentMan.storage).isSome) :
    let next := s.turn score maxRetries message i input worker
    s.Books next.1 i worker next.2 ∧ s.Holds next.1 worker next.2 := by
  cases worker with
  | start previous | idle | downloading work retries | received work data | notifying work leaves =>
    refine books_of_same hc hr hw rfl rfl rfl ?_ ?_ <;> simp only [turn] <;> split <;> rfl
  | choosing previous =>
    obtain ⟨hrel, hf⟩ := hc.releaseWorker hw
    obtain ⟨hfil, -⟩ := s.scheduler.releaseWorker_frame i
    have hin : ∀ id index, (s.scheduler.releaseWorker i).InFlight id index ↔
        s.scheduler.InFlight id index := by
      intro id index
      rw [InFlight, hfil, InFlight]
    have hr' : (s.scheduler.releaseWorker i).InRange := fun file hm => hr file (hfil ▸ hm)
    have hfre : ∀ p, (choosing previous).piece ≠ some p := fun p hp => by cases hp
    simp only [turn]
    rcases nextWork_free score (hfree previous rfl) with
      ⟨hn, hs, -⟩ | ⟨idx, file, index, -, hfile, hsel, hwor, hs⟩
    · rw [hn, hs]
      exact ⟨⟨hf, hrel, hr', fun id index h => .inr ⟨(hin id index).mp h, hfre _⟩⟩,
        fun id index h _ => (hin id index).mpr h, fun id index h => by cases h⟩
    rw [hwor, hs]
    have hget : (s.scheduler.releaseWorker i).files[idx]? = some file := hfil ▸ hfile
    have hnone : (s.scheduler.releaseWorker i).workerFile[i]? = some none := by
      rw [hf, List.getElem?_set_self (List.getElem?_eq_some_iff.mp hw).1]
    have hi := ids_set hget file.segmentMan.nextPiece.2
    obtain ⟨hr'', ha⟩ := inFlight_given hr' hget hsel
      (t := { (s.scheduler.releaseWorker i).asked idx file with
        fileWorkerCount :=
          (s.scheduler.releaseWorker i).fileWorkerCount.modify file.id (· + 1) }) rfl
    refine ⟨⟨?_, fun id hid => hrel.give hnone id (hi ▸ hid), hr'', fun id index h => ?_⟩,
      fun id p h _ => (ha id p).mpr (.inr ((hin id p).mpr h)), fun id p h => ?_⟩
    · simp only [setScheduler, hf, set_set]
      rfl
    · exact ((ha id index).mp h).imp (congrArg some) fun h => ⟨(hin id index).mp h, hfre _⟩
    · cases h
      refine .inr ⟨?_, (ha _ _).mpr (.inl rfl)⟩
      rintro ⟨other, ho, hid, hp⟩
      exact (nextPiece_of_select hsel).2.1
        (inj_on_of_nodup_map hnodup ho (mem_of_getElem? hfile) hid ▸ hp)
  | waiting | marking work | done exit => exact books_of_same hc hr hw rfl rfl rfl rfl rfl
  | parked future =>
    refine books_of_same hc hr hw rfl rfl rfl ?_ ?_ <;> simp only [turn, wake] <;> split
    all_goals first | rfl | (split <;> rfl)
  | written work =>
    have ht : (s.turn score maxRetries message i input (written work)).2.assigned =
          some work.fileId ∧
        (s.turn score maxRetries message i input (written work)).2.piece = none := by
      simp only [turn]
      split <;> exact ⟨rfl, rfl⟩
    exact books_of_updateFile hc hr hw hnodup False (fun _ _ _ => mem_filter_ne) rfl rfl rfl ht.1 rfl
      (.inr ⟨ht.2, id⟩)
  | failed work retries error =>
    simp only [turn]
    split
    · exact books_of_updateFile hc hr hw hnodup False (fun _ _ _ => mem_filter_ne) rfl rfl rfl rfl rfl
        (.inr ⟨rfl, id⟩)
    · exact books_of_updateFile hc hr hw hnodup True
        (f := fun man piece => man.recordPieceRetry piece (message error))
        (fun _ _ _ => (and_iff_left fun _ => trivial).symm) rfl rfl rfl rfl rfl (.inl ⟨rfl, trivial⟩)
  | retried work retries error =>
    simp only [turn]
    split
    · exact books_of_updateFile hc hr hw hnodup False (fun _ _ _ => mem_filter_ne) rfl rfl rfl rfl rfl
        (.inr ⟨rfl, id⟩)
    · exact books_of_same hc hr hw rfl rfl rfl rfl rfl

end Turn

namespace Pool

structure Exclusive (s : Pool) : Prop where
  given : ∀ (i : Nat) (p : Nat × Nat), (s.workers[i]?).bind PoolWorker.piece = some p →
    s.shared.scheduler.InFlight p.1 p.2
  once : ∀ (i j : Nat) (p : Nat × Nat), (s.workers[i]?).bind PoolWorker.piece = some p →
    (s.workers[j]?).bind PoolWorker.piece = some p → i = j

variable {s : Pool}

lemma Exclusive.of_holds (h : s.Exclusive) (hw : s.workers[i]? = some worker)
    (hh : s.shared.Holds shared worker worker') :
    Exclusive ⟨shared, s.workers.set i worker'⟩ := by
  have hi : (s.workers[i]?).bind piece = worker.piece := by
    rw [hw]
    rfl
  have hs : ∀ j, ((s.workers.set i worker')[j]?).bind piece =
      if i = j then worker'.piece else (s.workers[j]?).bind piece := by
    intro j
    by_cases hij : i = j
    · subst hij
      rw [List.getElem?_set_self (List.getElem?_eq_some_iff.mp hw).1, if_pos rfl]
      rfl
    · rw [getElem?_set_ne hij, if_neg hij]
  -- another worker does not have the piece that the worker has now
  have ho : ∀ j ≠ i, ∀ p, worker'.piece = some p →
      (s.workers[j]?).bind piece ≠ some p := by
    intro j hj p hp hp'
    rcases hh.own p.1 p.2 hp with ⟨hsam, -⟩ | ⟨hnot, -⟩
    · exact hj (h.once j i p hp' (hi.trans hsam))
    · exact hnot (h.given j p hp')
  constructor
  · intro j p hp
    rw [hs] at hp
    split at hp
    · rcases hh.own p.1 p.2 hp with ⟨hsam, hk⟩ | ⟨-, hin⟩
      · exact hk (h.given i p (hi.trans hsam))
      · exact hin
    next hij =>
      exact hh.others p.1 p.2 (h.given j p hp) fun hsam => hij (h.once i j p (hi.trans hsam) hp)
  · intro j k p hj hk
    rw [hs] at hj hk
    split at hj <;> rename_i hij <;> split at hk <;> rename_i hik
    · exact hij.symm.trans hik
    · exact absurd hk (ho k (Ne.symm hik) p hj)
    · exact absurd hj (ho j (Ne.symm hij) p hk)
    · exact h.once j k p hj hk

end Pool

namespace PoolSetup

lemma fileWorkerCount_scheduler (self : PoolSetup) :
    self.scheduler.workerFile = List.replicate self.totalWorkers none ∧
      ∀ id ∈ self.scheduler.ids, self.scheduler.fileWorkerCount[id]? = some 0 := by
  refine foldlRecOn self.entries addFile
    (motive := fun s : SchedulerInner => s.workerFile = replicate self.totalWorkers none ∧
      ∀ id ∈ s.ids, s.fileWorkerCount[id]? = some 0)
    ⟨rfl, fun id hid => absurd hid not_mem_nil⟩ fun s hs entry _ => ⟨hs.1, fun id hid => ?_⟩
  simp only [ids, addFile, map_append, mem_append, map_cons, map_nil, mem_singleton] at hid ⊢
  by_cases heq : entry.id = id
  · subst heq
    exact List.getElem?_set_self (length_padTo _ _ _).1
  · have hzero := hs.2 id (hid.resolve_right (Ne.symm heq))
    rw [getElem?_set_ne heq, padTo,
      List.getElem?_append_left (List.getElem?_eq_some_iff.mp hzero).1, hzero]

variable (score)

lemma kept_pool (self : PoolSetup) (actions : List PoolAction) :
    (self.pool score actions).Kept ∧ (self.pool score actions).Exclusive := by
  obtain ⟨hr, hfi⟩ := self.registered_scheduler
  obtain ⟨hfil, hc⟩ := self.fileWorkerCount_scheduler
  have hf : ∀ file ∈ self.scheduler.files, file.segmentMan.storage.inFlight = [] :=
    hfi ▸ self.fresh
  have hn : ∀ (i : Nat), (self.start.workers[i]?).bind piece = none := by
    intro i
    rw [start, getElem?_replicate]
    split <;> rfl
  refine (and_assoc.mpr (Pool.run_induction score self.maxRetries self.message
    (P := fun s => s.Kept ∧ s.Exclusive ∧ s.shared.scheduler.ids.Nodup)
    ⟨⟨?_, ?_, ?_, ?_⟩, ⟨?_, ?_⟩, hr.nodup⟩ ?_ ?_ actions)).1
  · exact hfil.trans (map_replicate (f := assigned) (a := .start none)).symm
  · intro id hid
    have hnone : self.scheduler.workerFile.count (some id) = 0 := by
      rw [hfil, count_replicate]
      rfl
    exact (hc id hid).trans (congrArg some hnone.symm)
  · intro file hm index hin
    rw [hf file hm] at hin
    cases hin
  · rintro id index ⟨file, hm, -, hin⟩
    rw [hf file hm] at hin
    cases hin
  · intro i p hp
    cases (hn i).symm.trans hp
  · intro i j p hp
    cases (hn i).symm.trans hp
  · rintro s i input worker ⟨hk, he, hnodup⟩ hw next
    have ht : s.shared.Turns next.1 worker next.2 := s.shared.turns i input worker
    have hb : s.shared.Books next.1 i worker next.2 ∧ s.shared.Holds next.1 worker next.2 := by
      refine books hk.counted hk.inRange ?_ hnodup input ?_
      · rw [hk.workerFile, getElem?_map, hw, map_some]
      · rintro previous rfl file hm
        exact hk.free hw hm
    exact ⟨hk.of_books hw hb.1, he.of_holds hw hb.2, ht.ids ▸ hnodup⟩
  · rintro s ⟨hk, he, hnodup⟩
    exact ⟨⟨hk.workerFile, hk.counted, hk.inRange, hk.held⟩, ⟨he.given, he.once⟩, hnodup⟩

/-- The accounts are right exactly while no worker has left with a file: because a write failed, or
because of a cancellation after it was given a piece. -/
theorem accounted_iff (self : PoolSetup) (actions : List PoolAction) :
    (self.pool score actions).Accounted ↔ (self.pool score actions).LeftFree := by
  have hk := (self.kept_pool score actions).1
  exact ⟨fun h => hk.leftFree_of_counted (self.sound_pool score actions).known h.counted,
    hk.accounted⟩

/-- The byte arrives and cannot be written; then the second worker asks, is given nothing and
waits. -/
def diskFullActions : List PoolAction :=
  [0, 0, 0, 0].map (.advance · { oneByte with writeResult := .error (.other (ascii "disk full")) }) ++
    [1, 1, 1, 1].map (.advance · oneByte)

/-- The piece stays given out and its worker counted, so that the file keeps the second worker
out. -/
theorem piece_lost_with_worker : let s := (oneFile 2).pool (fun _ _ _ => (0 : Nat)) diskFullActions
    s.workers.map (·.exited) = [true, false] ∧ s.workers.map (·.waits) = [false, true] ∧
      s.shared.scheduler.fileStatus = [.active] ∧ s.shared.scheduler.fileWorkerCount = [1] ∧
      s.assignedTo 0 = 0 ∧ s.shared.scheduler.files.map (·.segmentMan.storage.inFlight) = [[0]] := by
  decide

/-- In every state the workers of a file are counted, no more of its pieces are given out than it has
workers, and no two workers have the same piece. A worker is given a free piece of the file that is
selected for it; it is given nothing only if all is done or no unfinished file has room for it. -/
theorem work_given_soundly (self : PoolSetup) (actions : List PoolAction) :
    let s := self.pool score actions
    (∀ file ∈ s.shared.scheduler.files,
      s.shared.scheduler.fileWorkerCount[file.id]? =
          some (s.workers.countP (·.assigned == some file.id)) ∧
        file.given ≤ s.workers.countP (·.assigned == some file.id)) ∧
    (∀ (i j : Nat) (p : Nat × Nat), (s.workers[i]?).bind PoolWorker.piece = some p →
      (s.workers[j]?).bind PoolWorker.piece = some p → i = j) ∧
    ∀ (i : Nat) (previous : Option Nat), s.workers[i]? = some (.choosing previous) →
      let released := s.shared.scheduler.releaseWorker i
      let next := s.shared.scheduler.nextWork score i
      (next.1 = none ∧ (s.shared.scheduler.allDone = true ∨
          ∀ file ∈ s.shared.scheduler.files, released.fileStatus[file.id]? = some .active →
            file.segmentMan.storage.remainingPieces ≠ 0 →
            released.maxWorkers file ≤ (released.fileWorkerCount[file.id]?).getD 0)) ∨
        ∃ idx file index, released.bestFile score previous = some idx ∧
          s.shared.scheduler.files[idx]? = some file ∧
          selectPiece file.segmentMan.storage = some index ∧
          next.1 = some (workOf file index) := by
  intro s
  obtain ⟨hk, he⟩ : s.Kept ∧ s.Exclusive := self.kept_pool score actions
  refine ⟨fun file hm => ?_, he.once, fun i previous hw => ?_⟩
  · have hc := hk.counted file.id (mem_map_of_mem hm)
    have hle := given_le fun index hin => hk.held file.id index ⟨file, hm, rfl, hin⟩
    rw [hk.workerFile] at hc
    rw [count_eq_countP, countP_map] at hc hle
    exact ⟨hc, hle⟩
  have hp : (s.shared.scheduler.workerFile[i]?).join = previous := by
    rw [hk.workerFile, getElem?_map, hw]
    rfl
  rcases nextWork_free score (fun file hm => hk.free hw hm) with
    ⟨hn, -, hnone⟩ | ⟨idx, file, index, hb, hfile, hsel, hwork, -⟩
  · refine .inl ⟨hn, hnone.imp_right fun hall file hm hact hr => ?_⟩
    have hel := hall file hm
    simpa [eligible, hact, hr, maxWorkers] using hel
  · exact .inr ⟨idx, file, index, hp ▸ hb, hfile, hsel, hwork⟩

end PoolSetup

end Aioduct.Cli
