import Aioduct.Cli.Scheduler
import Aioduct.Cli.Worker

/-!
# Pool of workers

`pool_worker_loop` of `download/worker.rs`: workers that take pieces of several files from one
scheduler. A step of a worker is as long as it holds the lock of the scheduler.
-/

namespace Aioduct.Cli

open Wire SchedulerInner List Bool

variable {Score : Type} [LT Score] [DecidableLT Score]
  (score : (file : FileEntry) → (currentWorkers : Nat) → (sticky : Bool) → Score)

namespace SchedulerInner

variable {self : SchedulerInner}

/-- The first lock of `complete_piece`, and whether the file is complete under it; the status of the
file is set under a second one. -/
def recordComplete (self : SchedulerInner) (id index : Nat) : Bool × SchedulerInner :=
  let self := { self with files := updateFile id (onPiece · index .completePiece) self.files }
  ((self.files.find? (·.id == id)).any (·.segmentMan.isComplete), self)

lemma bestFile_eq_some {prevFile : Option Nat} {idx : Nat}
    (h : self.bestFile score prevFile = some idx) :
    ∃ file, self.files[idx]? = some file ∧ self.eligible file := by
  obtain ⟨best, hb, rfl⟩ := Option.map_eq_some_iff.mp h
  revert hb
  -- the best file so far is one of those that were read
  refine List.foldlRecOn self.files.zipIdx _
    (motive := fun found : Option (Nat × Score) => found = some best →
      ∃ file, self.files[best.1]? = some file ∧ self.eligible file)
    (fun hnone => by cases hnone) ?_
  rintro found ih ⟨file, idx⟩ hm hf
  have hfile : self.files[idx]? = some file := mem_zipIdx_iff_getElem?.mp hm
  simp only at hf
  split at hf
  next he =>
    split at hf
    · cases hf
      exact ⟨file, hfile, he⟩
    split at hf
    · cases hf
      exact ⟨file, hfile, he⟩
    · exact ih hf
  · exact ih hf

lemma status_of_eligible {file : FileEntry}
    (h : self.eligible file) : self.fileStatus[file.id]? = some .active := by
  simp only [eligible, and_eq_true, beq_iff_eq] at h
  exact h.1.1

def workOf (file : FileEntry) (index : Nat) : WorkAssignment where
  fileId := file.id
  index := index
  offset := file.layout.offset index
  length := file.layout.length index
  url := file.url
  fileName := file.filename
  totalSize := file.totalSize
  ifRange := file.ifRange

def asked (self : SchedulerInner) (idx : Nat) (file : FileEntry) : SchedulerInner :=
  { self with files := self.files.set idx { file with segmentMan := file.segmentMan.nextPiece.2 } }

/-- All that `next_work` can do after the previous assignment was given back. -/
inductive Gives (s : SchedulerInner) (worker : Nat) : Option WorkAssignment × SchedulerInner → Prop
  | nothing : Gives s worker (none, s)
  | exhausted {idx : Nat} {file : FileEntry} (hopen : s.allDone = false)
      (hfile : s.files[idx]? = some file) (hnone : file.segmentMan.nextPiece.1 = none) :
      Gives s worker (none, s.asked idx file)
  | piece {idx : Nat} {file : FileEntry} {index : Fin file.layout.totalPieces}
      (hopen : s.allDone = false) (hfile : s.files[idx]? = some file)
      (hpiece : file.segmentMan.nextPiece.1 = some index) :
      Gives s worker (some (workOf file index),
        { s.asked idx file with
          workerFile := s.workerFile.set worker (some file.id)
          fileWorkerCount := s.fileWorkerCount.modify file.id (· + 1) })

lemma nextWork_gives (s : SchedulerInner) (worker : Nat) :
    Gives (s.releaseWorker worker) worker (s.nextWork score worker) := by
  unfold nextWork
  simp only
  split
  · exact .nothing
  rename_i hopen
  rw [not_eq_true] at hopen
  split
  · exact .nothing
  rename_i idx hb
  obtain ⟨file, hfile, he⟩ := bestFile_eq_some score hb
  rw [hfile]
  simp only [assign]
  split
  next hnone =>
    exact .exhausted hopen hfile hnone
  rename_i index hpiece
  -- a file that is given out is active already
  rw [if_neg (by rw [status_of_eligible he]; decide)]
  exact .piece hopen hfile hpiece

end SchedulerInner

/-- A future of `notified()`, with the calls of `notify_waiters` before it was made. What the
scheduler would have said then is of no importance to the code. -/
structure Notified where
  calls : Nat
  allDone : Bool

inductive PoolExit where
  /-- At the top, with the file of its last piece if there was one since it last waited. -/
  | cancelled (previous : Option Nat)
  | finished
  | cancelledWaiting
  | cancelledPiece (work : WorkAssignment)
  | writeFailed (work : WorkAssignment) (error : Error)

inductive PoolWorker where
  | start (previous : Option Nat)
  | choosing (previous : Option Nat)
  | idle
  | waiting
  | parked (future : Notified)
  | downloading (work : WorkAssignment) (retries : Nat)
  | received (work : WorkAssignment) (data : Bytes)
  | written (work : WorkAssignment)
  | marking (work : WorkAssignment)
  | failed (work : WorkAssignment) (retries : Nat) (error : Error)
  | retried (work : WorkAssignment) (retries : Nat) (error : Error)
  | notifying (work : WorkAssignment) (leaves : Bool)
  | done (exit : PoolExit)

namespace PoolExit

def assigned : PoolExit → Option Nat
  | .cancelled previous => previous
  | .finished | .cancelledWaiting => none
  | .cancelledPiece work | .writeFailed work _ => some work.fileId

end PoolExit

namespace PoolWorker

def assigned : PoolWorker → Option Nat
  | .start previous | .choosing previous => previous
  | .idle | .waiting | .parked _ => none
  | .downloading work _ | .received work _ | .written work | .marking work | .failed work _ _
  | .retried work _ _ | .notifying work _ => some work.fileId
  | .done exit => exit.assigned

/-- The worker has a piece, or what became of it is still to be told. -/
def busy : PoolWorker → Bool
  | .downloading _ _ | .received _ _ | .written _ | .marking _ | .failed _ _ _ | .retried _ _ _
  | .notifying _ _ => true
  | _ => false

def waits : PoolWorker → Bool
  | .waiting | .parked _ => true
  | _ => false

def exited : PoolWorker → Bool
  | .done _ => true
  | _ => false

end PoolWorker

structure PoolInput where
  exchange : Exchange
  writeResult : Except Error Unit := .ok ()
  /-- Which of two branches of `select!` that are both ready is taken. -/
  cancelFirst : Bool := false

structure PoolShared where
  scheduler : SchedulerInner
  /-- The calls of `notify_waiters`. -/
  notified : Nat := 0
  cancel : Bool := false

namespace PoolShared

def setScheduler (self : PoolShared) (scheduler : SchedulerInner) : PoolShared :=
  { self with scheduler := scheduler }

/-- A parked worker is woken by a notification or by the end of the downloads. -/
def wake (self : PoolShared) (future : Notified) (cancelFirst : Bool) : PoolWorker :=
  if future.calls < self.notified && !(self.cancel && cancelFirst) then .start none
  else if self.cancel then .done .cancelledWaiting
  else .parked future

section Turn

variable (maxRetries : Nat) (message : Error → Bytes)

/-- One step of a worker; `message` is how an error is shown. -/
def turn (self : PoolShared) (i : Nat) (input : PoolInput) : PoolWorker → PoolShared × PoolWorker
  | .start previous =>
    (self, if self.cancel then .done (.cancelled previous) else .choosing previous)
  | .choosing _ =>
    let (work, scheduler) := self.scheduler.nextWork score i
    (self.setScheduler scheduler,
      match work with
      | some work => .downloading work 0
      | none => .idle)
  | .idle => (self, if self.scheduler.allDone then .done .finished else .waiting)
  | .waiting => (self, .parked ⟨self.notified, self.scheduler.allDone⟩)
  | .parked future => (self, self.wake future input.cancelFirst)
  | .downloading work retries =>
    (self,
      match downloadPiece work.offset work.length work.totalSize input.exchange with
      | .ok data => .received work data
      | .error error => .failed work retries error)
  | .received work _ =>
    (self,
      match input.writeResult with
      | .ok () => .written work
      | .error error => .done (.writeFailed work error))
  | .written work =>
    let (complete, scheduler) := self.scheduler.recordComplete work.fileId work.index
    (self.setScheduler scheduler, if complete then .marking work else .start (some work.fileId))
  | .marking work =>
    (self.setScheduler (self.scheduler.markFileComplete work.fileId), .notifying work false)
  | .failed work retries error =>
    if self.cancel then
      (self.setScheduler (self.scheduler.failPiece work.fileId work.index), .notifying work true)
    else
      (self.setScheduler
        (self.scheduler.recordPieceRetry work.fileId work.index (message error)),
        .retried work (retries + 1) error)
  | .retried work retries error =>
    if maxRetries ≤ retries then
      (self.setScheduler (self.scheduler.markPieceFailed work.fileId work.index (message error)),
        .notifying work false)
    else (self, .downloading work retries)
  | .notifying work leaves =>
    ({ self with notified := self.notified + 1 },
      if leaves then .done (.cancelledPiece work) else .start (some work.fileId))
  | .done exit => (self, .done exit)

end Turn

end PoolShared

structure Pool where
  shared : PoolShared
  workers : List PoolWorker

inductive PoolAction where
  | advance (worker : Nat) (input : PoolInput)
  | cancel

namespace Pool

variable (maxRetries : Nat) (message : Error → Bytes)

def step (self : Pool) : PoolAction → Pool
  | .advance i input =>
    match self.workers[i]? with
    | some worker =>
      let (shared, worker) := self.shared.turn score maxRetries message i input worker
      ⟨shared, self.workers.set i worker⟩
    | none => self
  | .cancel => { self with shared := { self.shared with cancel := true } }

def run (self : Pool) (actions : List PoolAction) : Pool :=
  actions.foldl (step score maxRetries message) self

lemma run_induction {P : Pool → Prop} {s : Pool} (h : P s)
    (ht : ∀ (s : Pool) (i : Nat) (input : PoolInput) (worker : PoolWorker), P s →
      s.workers[i]? = some worker →
      let next := s.shared.turn score maxRetries message i input worker
      P ⟨next.1, s.workers.set i next.2⟩)
    (hc : ∀ s : Pool, P s → P { s with shared := { s.shared with cancel := true } })
    (actions : List PoolAction) : P (s.run score maxRetries message actions) := by
  induction actions generalizing s with
  | nil => exact h
  | cons action actions ih =>
    refine ih ?_
    cases action with
    | advance i input =>
      simp only [step]
      split
      next worker hw =>
        exact ht s i input worker h hw
      · exact h
    | cancel => exact hc s h

end Pool

/-- Files that are registered under different ids, with none of their pieces given out. -/
structure PoolSetup where
  entries : List FileEntry
  nodup : (entries.map (·.id)).Nodup
  fresh : ∀ entry ∈ entries, entry.segmentMan.storage.inFlight = []
  totalWorkers : Nat
  maxRetries : Nat
  message : Error → Bytes

namespace PoolSetup

def scheduler (self : PoolSetup) : SchedulerInner :=
  self.entries.foldl addFile (.new self.totalWorkers)

def start (self : PoolSetup) : Pool where
  shared := { scheduler := self.scheduler }
  workers := List.replicate self.totalWorkers (.start none)

end PoolSetup

namespace SchedulerInner

variable {s : SchedulerInner}

lemma releaseWorker_frame (s : SchedulerInner) (worker : Nat) :
    (s.releaseWorker worker).files = s.files ∧
      (s.releaseWorker worker).fileStatus = s.fileStatus := by
  unfold releaseWorker
  split <;> exact ⟨rfl, rfl⟩

lemma Gives.frame {worker : Nat} {given : Option WorkAssignment × SchedulerInner}
    (h : Gives s worker given) :
    given.2.ids = s.ids ∧ given.2.fileStatus = s.fileStatus ∧
      ∀ work ∈ given.1, work.fileId ∈ s.ids := by
  cases h with
  | nothing => exact ⟨rfl, rfl, fun work hw => by cases hw⟩
  | exhausted _ hfile _ => exact ⟨ids_set hfile _, rfl, fun work hw => by cases hw⟩
  | piece _ hfile _ =>
    refine ⟨ids_set hfile _, rfl, fun work hw => ?_⟩
    cases hw
    exact mem_map.mpr ⟨_, mem_of_getElem? hfile, rfl⟩

lemma allDone_congr {s' : SchedulerInner} (hi : s'.ids = s.ids)
    (hs : s'.fileStatus = s.fileStatus) : s'.allDone = s.allDone := by
  have hlen : s'.files.length = s.files.length := by
    simpa only [ids, length_map] using congrArg List.length hi
  have hempty : s'.files.isEmpty = s.files.isEmpty := by
    rw [Bool.eq_iff_iff, isEmpty_iff_length_eq_zero, isEmpty_iff_length_eq_zero, hlen]
  rw [allDone, allDone, hs, hlen, hempty]

lemma allDone_set {s' : SchedulerInner} (hi : s'.ids = s.ids) {id : Nat} {status : FileStatus}
    (hf : status.finished) (hs : s'.fileStatus = s.fileStatus.set id status)
    (h : s.allDone) : s'.allDone := by
  rw [allDone, and_eq_true, all_eq_true] at h
  let changed : SchedulerInner := { s with fileStatus := s.fileStatus.set id status }
  rw [allDone_congr (s := changed) hi hs, allDone, and_eq_true, all_eq_true]
  refine ⟨h.1, fun other ho => ?_⟩
  rw [take_set] at ho
  rcases mem_or_eq_of_mem_set ho with hm | rfl
  · exact h.2 other hm
  · exact hf

end SchedulerInner

section Turn

variable {score} {maxRetries : Nat} {message : Error → Bytes}

/-- A turn after which the status of files is as before, or after which the worker is about to
notify that a file is finished. -/
structure PoolShared.Turns (s s' : PoolShared) (worker worker' : PoolWorker) : Prop where
  ids : s'.scheduler.ids = s.scheduler.ids
  status : s'.scheduler.fileStatus = s.scheduler.fileStatus ∨
    ∃ work status, worker.assigned = some work.fileId ∧ worker' = .notifying work false ∧
      status.finished = true ∧
      s'.scheduler.fileStatus = s.scheduler.fileStatus.set work.fileId status
  assigned : ∀ id ∈ worker'.assigned, id ∈ s.scheduler.ids ∨ worker.assigned = some id
  notified : s'.notified = s.notified ∨
    s'.notified = s.notified + 1 ∧ ∃ work leaves, worker = .notifying work leaves

lemma PoolShared.turns (s : PoolShared) (i : Nat) (input : PoolInput) (worker : PoolWorker) :
    let next := s.turn score maxRetries message i input worker
    s.Turns next.1 worker next.2 := by
  have hi : ∀ (id index : Nat)
      (f : {layout : Layout} → SegmentMan layout → Fin layout.totalPieces → SegmentMan layout),
      (updateFile id (onPiece · index f) s.scheduler.files).map (·.id) = s.scheduler.ids :=
    fun id index f => ids_updateFile (fun file => id_onPiece file index f) s.scheduler.files
  cases worker with
  | start previous | downloading work retries | received work data =>
    refine ⟨rfl, .inl rfl, fun id hid => .inr ?_, .inl rfl⟩
    simp only [turn] at hid
    split at hid <;> exact hid
  | choosing previous =>
    obtain ⟨hf, hs⟩ := s.scheduler.releaseWorker_frame i
    have hr : (s.scheduler.releaseWorker i).ids = s.scheduler.ids := by rw [ids, ids, hf]
    obtain ⟨hg, hsam, hw⟩ := (nextWork_gives score s.scheduler i).frame
    refine ⟨hg.trans hr, .inl (hsam.trans hs), fun id hid => .inl ?_, .inl rfl⟩
    simp only [turn] at hid
    split at hid
    next work heq =>
      cases hid
      exact hr ▸ hw work heq
    · cases hid
  | idle =>
    refine ⟨rfl, .inl rfl, fun id hid => ?_, .inl rfl⟩
    simp only [turn] at hid
    split at hid <;> cases hid
  | waiting => exact ⟨rfl, .inl rfl, fun id hid => (by cases hid), .inl rfl⟩
  | parked future =>
    refine ⟨rfl, .inl rfl, fun id hid => ?_, .inl rfl⟩
    simp only [turn, wake] at hid
    split at hid
    · cases hid
    · split at hid <;> cases hid
  | written work =>
    refine ⟨hi work.fileId work.index _, .inl rfl, fun id hid => .inr ?_, .inl rfl⟩
    simp only [turn] at hid
    split at hid <;> exact hid
  | marking work =>
    exact ⟨rfl, .inr ⟨work, .complete, rfl, rfl, rfl, rfl⟩, fun id hid => .inr hid, .inl rfl⟩
  | failed work retries error =>
    simp only [turn]
    split <;> exact ⟨hi _ _ _, .inl rfl, fun id hid => .inr hid, .inl rfl⟩
  | retried work retries error =>
    simp only [turn]
    split
    · exact ⟨hi _ _ _, .inr ⟨work, .failed, rfl, rfl, rfl, rfl⟩, fun id hid => .inr hid, .inl rfl⟩
    · exact ⟨rfl, .inl rfl, fun id hid => .inr hid, .inl rfl⟩
  | notifying work leaves =>
    refine ⟨rfl, .inl rfl, fun id hid => .inr ?_, .inr ⟨rfl, work, leaves, rfl⟩⟩
    simp only [turn] at hid
    split at hid <;> exact hid
  | done exit => exact ⟨rfl, .inl rfl, fun id hid => .inr hid, .inl rfl⟩

lemma PoolShared.Turns.allDone {s s' : PoolShared} {worker worker' : PoolWorker}
    (h : s.Turns s' worker worker') :
    (s.scheduler.allDone → s'.scheduler.allDone) ∧
      (s'.scheduler.allDone = s.scheduler.allDone ∨ ∃ work, worker' = .notifying work false) := by
  rcases h.status with hs | ⟨work, status, -, hn, hf, hset⟩
  · have heq := allDone_congr h.ids hs
    exact ⟨fun hd => heq.trans hd, .inl heq⟩
  · exact ⟨allDone_set h.ids hf hset, .inr ⟨work, hn⟩⟩

end Turn

namespace Pool

structure Sound (s : Pool) : Prop where
  registered : s.shared.scheduler.Registered
  known : ∀ worker ∈ s.workers, ∀ id ∈ worker.assigned, id ∈ s.shared.scheduler.ids

end Pool

namespace PoolSetup

lemma registered_scheduler (self : PoolSetup) :
    self.scheduler.Registered ∧ self.scheduler.files = self.entries := by
  suffices h : ∀ (entries : List FileEntry) (s : SchedulerInner), s.Registered →
      (s.ids ++ entries.map (·.id)).Nodup →
      (entries.foldl addFile s).Registered ∧
        (entries.foldl addFile s).files = s.files ++ entries from
    h self.entries (.new self.totalWorkers) (registered_new _) self.nodup
  intro entries
  induction entries with
  | nil => exact fun s hs _ => ⟨hs, (append_nil _).symm⟩
  | cons entry entries ih =>
    intro s hs hnodup
    have hi : (s.addFile entry).ids = s.ids ++ [entry.id] := by simp [ids, addFile]
    have hn : entry.id ∉ s.ids := fun hm =>
      (nodup_append.mp hnodup).2.2 _ hm _ mem_cons_self rfl
    obtain ⟨hr, hf⟩ := ih (s.addFile entry) (hs.addFile hn) (by
      rw [hi, append_assoc]
      exact hnodup)
    exact ⟨hr, hf.trans (append_assoc _ _ _)⟩

variable (self : PoolSetup) (actions : List PoolAction)

def pool : Pool :=
  self.start.run score self.maxRetries self.message actions

lemma sound_pool : (self.pool score actions).Sound := by
  refine Pool.run_induction score self.maxRetries self.message (P := Pool.Sound) ?_ ?_ ?_ actions
  · refine ⟨self.registered_scheduler.1, fun worker hw id hid => ?_⟩
    rw [eq_of_mem_replicate hw] at hid
    cases hid
  · intro s i input worker h hw next
    have ht : s.shared.Turns next.1 worker next.2 := s.shared.turns i input worker
    have hk : ∀ id ∈ worker.assigned, id ∈ s.shared.scheduler.ids :=
      h.known worker (mem_of_getElem? hw)
    refine ⟨h.registered.of_touches ⟨ht.ids, ?_⟩, fun other ho id hid => ?_⟩
    · rcases ht.status with hs | ⟨work, status, ha, -, -, hset⟩
      · exact .inl hs
      · exact .inr ⟨work.fileId, hk _ ha, status, hset⟩
    rw [ht.ids]
    rcases mem_or_eq_of_mem_set ho with hm | rfl
    · exact h.known other hm id hid
    · exact (ht.assigned id hid).elim (fun hm => hm) (hk id)
  · exact fun s h => ⟨h.registered, h.known⟩

lemma ids_pool : (self.pool score actions).shared.scheduler.ids = self.scheduler.ids := by
  refine Pool.run_induction score self.maxRetries self.message
    (P := fun s => s.shared.scheduler.ids = self.scheduler.ids) rfl ?_ (fun _ h => h) actions
  intro s i input worker h _ next
  have ht : s.shared.Turns next.1 worker next.2 := s.shared.turns i input worker
  exact ht.ids.trans h

lemma contiguous_pool (h : self.scheduler.Contiguous) (actions : List PoolAction) :
    (self.pool score actions).shared.scheduler.Contiguous := by
  have hi := self.ids_pool score actions
  have hlen := congrArg List.length hi
  rw [ids, ids, length_map, length_map] at hlen
  intro id hid
  rw [hi]
  exact h id (hlen ▸ hid)

end PoolSetup

end Aioduct.Cli
