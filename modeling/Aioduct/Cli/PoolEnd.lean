import Aioduct.Cli.Pool

/-!
# The end of a pool

A worker looks whether all files are done before it makes the future that it waits on. The
notification of the last file can come in between.
-/

namespace Aioduct.Cli

open Wire SchedulerInner List PoolShared FileStatus

variable {Score : Type} [LT Score] [DecidableLT Score]
  (score : (file : FileEntry) → (currentWorkers : Nat) → (sticky : Bool) → Score)

namespace SchedulerInner

def FilesDone (self : SchedulerInner) : Prop :=
  self.files ≠ [] ∧ ∀ id ∈ self.ids, self.FileFinished id

lemma Registered.filesDone_iff {s : SchedulerInner} (h : s.Registered) (hi : s.Contiguous) :
    s.FilesDone ↔ s.allDone := by
  have hb := h.contiguous_iff.mp hi
  rw [h.allDone_iff]
  exact and_congr_right fun _ => ⟨fun hall id hid => hall id (hi id hid),
    fun hall id hid => hall id (hb id hid)⟩

end SchedulerInner

section Turn

variable {score} {maxRetries : Nat} {message : Error → Bytes}

lemma PoolShared.turn_of_allDone {s : PoolShared} (hd : s.scheduler.allDone) (i : Nat)
    (input : PoolInput) {worker : PoolWorker} (hw : worker.busy = false) :
    let next := s.turn score maxRetries message i input worker
    next.2.busy = false ∧ next.1.notified = s.notified := by
  cases worker with
  | start previous | idle =>
    refine ⟨?_, rfl⟩
    simp only [turn]
    split <;> rfl
  | choosing previous =>
    have hnone : (s.scheduler.nextWork score i).1 = none := by
      have hr : (s.scheduler.releaseWorker i).allDone := by
        obtain ⟨hf, hs⟩ := s.scheduler.releaseWorker_frame i
        rw [allDone, hf, hs]
        exact hd
      rw [nextWork, if_pos hr]
    simp only [turn, hnone]
    exact ⟨rfl, rfl⟩
  | waiting => exact ⟨rfl, rfl⟩
  | parked future =>
    refine ⟨?_, rfl⟩
    simp only [turn, wake]
    split
    · rfl
    · split <;> rfl
  | done exit => exact ⟨rfl, rfl⟩
  | _ => cases hw

lemma PoolShared.turn_waits {s : PoolShared} {i : Nat} {input : PoolInput} {worker : PoolWorker}
    (h : (s.turn score maxRetries message i input worker).2.waits)
    (ho : worker.waits → s.scheduler.allDone = false) :
    (s.turn score maxRetries message i input worker).1.scheduler.allDone = false := by
  cases worker with
  | idle =>
    simp only [turn] at h
    split at h
    · cases h
    next hd =>
      exact Bool.not_eq_true _ ▸ hd
  | waiting => exact ho rfl
  | parked future => exact ho rfl
  | done exit => cases h
  | marking work => cases h
  | _ =>
    simp only [turn] at h
    split at h <;> cases h

end Turn

namespace Pool

variable (maxRetries : Nat) (message : Error → Bytes)

/-- A worker waits although all files are done, and no notification was sent since it made its
future or will be sent. -/
structure Sleeps (s : Pool) (i : Nat) : Prop where
  filesDone : s.shared.scheduler.FilesDone
  parked : ∃ future, s.workers[i]? = some (.parked future) ∧ s.shared.notified ≤ future.calls
  silent : ∀ actions, (s.run score maxRetries message actions).shared.notified = s.shared.notified

lemma notified_run {s : Pool} (hd : s.shared.scheduler.allDone)
    (hb : ∀ worker ∈ s.workers, worker.busy = false) (actions : List PoolAction) :
    (s.run score maxRetries message actions).shared.notified = s.shared.notified := by
  refine (run_induction score maxRetries message (P := fun p =>
    (p.shared.scheduler.allDone ∧ ∀ worker ∈ p.workers, worker.busy = false) ∧
      p.shared.notified = s.shared.notified) ⟨⟨hd, hb⟩, rfl⟩ ?_ ?_ actions).2
  · rintro p i input worker ⟨⟨hd, hb⟩, hs⟩ hw next
    have ht : p.shared.Turns next.1 worker next.2 := p.shared.turns i input worker
    obtain ⟨hnex, hn⟩ : next.2.busy = false ∧ next.1.notified = p.shared.notified :=
      turn_of_allDone hd i input (hb worker (mem_of_getElem? hw))
    refine ⟨⟨ht.allDone.1 hd, fun other ho => ?_⟩, hn.trans hs⟩
    rcases mem_or_eq_of_mem_set ho with hm | rfl
    · exact hb other hm
    · exact hnex
  · exact fun p h => h

lemma allDone_run_of_alone {s : Pool} (ha : s.workers.length ≤ 1)
    (h : ∀ worker ∈ s.workers, worker.waits = false) (actions : List PoolAction) :
    ∀ worker ∈ (s.run score maxRetries message actions).workers, worker.waits →
      (s.run score maxRetries message actions).shared.scheduler.allDone = false := by
  refine (run_induction score maxRetries message (P := fun p => p.workers.length ≤ 1 ∧
    ∀ worker ∈ p.workers, worker.waits → p.shared.scheduler.allDone = false)
    ⟨ha, fun worker hw hwai => ?_⟩ ?_ ?_ actions).2
  · rw [h worker hw] at hwai
    cases hwai
  · rintro p i input worker ⟨ha, hope⟩ hw next
    refine ⟨by rwa [length_set], fun other ho hwai => ?_⟩
    obtain ⟨hlt, -⟩ := List.getElem?_eq_some_iff.mp hw
    -- the only worker is the one whose turn it was
    obtain rfl : i = 0 := by omega
    obtain ⟨only, honl⟩ := length_eq_one_iff.mp (show p.workers.length = 1 by omega)
    simp only [honl, set_cons_zero, mem_singleton] at ho
    subst ho
    exact turn_waits hwai (hope worker (mem_of_getElem? hw))
  · exact fun p h => h

end Pool

namespace PoolSetup

variable (totalWorkers : Nat)

/-- No worker of a pool with so many of them sleeps when all files are done, unless a write has
failed. -/
def NoneSleeps : Prop :=
  ∀ self : PoolSetup, self.totalWorkers = totalWorkers → self.scheduler.Contiguous →
    ∀ actions : List PoolAction,
      (∀ i input, .advance i input ∈ actions → input.writeResult = .ok ()) →
      ∀ i, ¬ (self.pool score actions).Sleeps score self.maxRetries self.message i

def oneFile : PoolSetup where
  entries := [{ secondTask with id := 0 }]
  nodup := List.nodup_singleton _
  fresh entry hent := by
    rw [List.mem_singleton.mp hent]
    rfl
  totalWorkers := totalWorkers
  maxRetries := 5
  message _ := []

def oneByte : PoolInput where
  exchange := ⟨.ok ⟨206, ascii "206 Partial Content",
    ⟨[(contentRangeHeader, ⟨ascii "bytes 0-0/1", by decide⟩)]⟩⟩, [.chunk (ascii "a")]⟩

/-- The second worker gets nothing while the first one has the only piece, and is about to wait when
the first one completes the file. -/
def lateActions : List PoolAction := [0, 0, 1, 1, 1, 0, 0, 0, 0, 0, 1].map (.advance · oneByte)

variable (others : Nat)

/-- The pool of `oneFile` with the piece given out to the first worker. -/
def oneFilePool (man : SegmentMan secondTask.layout) (status : FileStatus)
    (notified : Nat) (first second : PoolWorker) : Pool where
  shared :=
    { scheduler :=
        { files := [{ secondTask with id := 0, segmentMan := man }]
          fileStatus := [status]
          workerFile := some 0 :: none :: List.replicate others none
          fileWorkerCount := [1]
          resumeSkippedPieces := [0]
          fileLastError := [none]
          totalWorkers := others + 2 }
      notified := notified }
  workers := first :: second :: List.replicate others (.start none)

lemma pool_oneFile : ∃ man,
    (oneFile (others + 2)).pool score lateActions =
      oneFilePool others man .complete 1 (.start (some 0)) (.parked ⟨1, true⟩) := by
  obtain ⟨given, hnex, hr, hcom⟩ : ∃ given,
      secondTask.segmentMan.nextPiece = (some ⟨0, by decide⟩, given) ∧
      given.storage.remainingPieces = 1 ∧
      (given.completePiece ⟨0, by decide⟩).isComplete :=
    ⟨_, Prod.ext (by decide) rfl, by decide, by decide⟩
  have hf : secondTask.segmentMan.storage.remainingPieces = 1 := by decide
  have hs : secondTask.layout.totalLength.toNat < smallFileThreshold := by decide
  have hres : secondTask.resumeSkippedPieces = 0 := rfl
  have hb : downloadPiece 0 1 1 oneByte.exchange = .ok (ascii "a") := by decide
  let work := workOf { secondTask with id := 0 } 0
  let step := fun (pool : Pool) (i : Nat) =>
    Pool.step score 5 (fun _ => []) pool (.advance i oneByte)
  let mid := oneFilePool others
  let complete := given.completePiece ⟨0, by decide⟩
  have hg : step (step (oneFile (others + 2)).start 0) 0 =
      mid given .active 0 (.downloading work 0) (.start none) := by
    simp [step, mid, oneFilePool, Pool.step, start, scheduler, oneFile, addFile,
      new, padTo, replicate_succ, turn, setScheduler,
      nextWork, releaseWorker, allDone,
      bestFile, eligible, assign, hnex, hf,
      finished, FileEntry.totalSize, hs, hres, work, workOf]
  have hc : ∀ first, step (mid given .active 0 first (.start none)) 1 =
      mid given .active 0 first (.choosing none) := fun _ => rfl
  have hno : ∀ first, step (mid given .active 0 first (.choosing none)) 1 =
      mid given .active 0 first .idle := by
    intro first
    simp [step, mid, oneFilePool, Pool.step, turn, setScheduler,
      nextWork, releaseWorker, allDone,
      bestFile, eligible, hr, finished,
      FileEntry.totalSize, hs]
  have hw : ∀ first, step (mid given .active 0 first .idle) 1 =
      mid given .active 0 first .waiting := fun _ => rfl
  have hrec : ∀ second, step (mid given .active 0 (.downloading work 0) second) 0 =
      mid given .active 0 (.received work (ascii "a")) second := by
    intro second
    have hwor : downloadPiece work.offset work.length work.totalSize oneByte.exchange =
      .ok (ascii "a") := hb
    simp [step, mid, oneFilePool, Pool.step, turn, hwor]
  have hwri : ∀ second, step (mid given .active 0 (.received work (ascii "a")) second) 0 =
      mid given .active 0 (.written work) second := fun _ => rfl
  have hm : ∀ second, step (mid given .active 0 (.written work) second) 0 =
      mid complete .active 0 (.marking work) second := by
    intro second
    have hpie : 0 < secondTask.layout.totalPieces := by decide
    simp [step, mid, oneFilePool, Pool.step, turn, setScheduler,
      recordComplete, updateFile, onPiece, work,
      workOf, hpie, complete, hcom]
  have hn : ∀ second, step (mid complete .active 0 (.marking work) second) 0 =
      mid complete .complete 0 (.notifying work false) second := fun _ => rfl
  have hnot : ∀ second, step (mid complete .complete 0 (.notifying work false) second) 0 =
      mid complete .complete 1 (.start (some 0)) second := fun _ => rfl
  have hp : ∀ first, step (mid complete .complete 1 first .waiting) 1 =
      mid complete .complete 1 first (.parked ⟨1, true⟩) := fun _ => rfl
  refine ⟨complete, ?_⟩
  have hrun : (oneFile (others + 2)).pool score lateActions =
      [0, 0, 1, 1, 1, 0, 0, 0, 0, 0, 1].foldl step (oneFile (others + 2)).start :=
    foldl_map
  rw [hrun]
  simp only [foldl_cons, foldl_nil, hg, hc, hno, hw, hrec, hwri, hm, hn, hnot, hp]
  rfl

lemma contiguous_oneFile : (oneFile totalWorkers).scheduler.Contiguous := by
  intro id hid
  obtain rfl : id = 0 := Nat.lt_one_iff.mp hid
  exact mem_singleton_self 0

lemma sleeps_oneFile :
    ((oneFile (others + 2)).pool score lateActions).Sleeps score 5 (fun _ => []) 1 := by
  have hr := ((oneFile (others + 2)).sound_pool score lateActions).registered
  have hi := (oneFile (others + 2)).contiguous_pool score (contiguous_oneFile _) lateActions
  obtain ⟨man, hp⟩ := pool_oneFile score others
  rw [hp] at hr hi ⊢
  refine ⟨(hr.filesDone_iff hi).mpr rfl, ⟨_, rfl, le_rfl⟩,
    Pool.notified_run score _ _ rfl fun worker hw => ?_⟩
  simp only [oneFilePool, mem_cons, mem_replicate] at hw
  rcases hw with rfl | rfl | ⟨-, rfl⟩ <;> rfl

/-- The pools in which no worker ever sleeps are those without a second worker. -/
theorem none_sleeps_iff (totalWorkers : Nat) : NoneSleeps score totalWorkers ↔ totalWorkers ≤ 1 := by
  constructor
  · intro hnone
    by_contra hmore
    obtain ⟨others, rfl⟩ : ∃ others, totalWorkers = others + 2 := ⟨totalWorkers - 2, by omega⟩
    refine hnone (oneFile (others + 2)) rfl (contiguous_oneFile _) lateActions ?_ 1
      (sleeps_oneFile score others)
    intro i input hm
    obtain ⟨worker, -, heq⟩ := mem_map.mp hm
    cases heq
    rfl
  intro hf self hw hi actions _ i hs
  obtain ⟨future, hp, -⟩ := hs.parked
  have ho := Pool.allDone_run_of_alone score self.maxRetries self.message (s := self.start)
    (by rw [start, length_replicate, hw]; exact hf)
    (fun worker hwor => by rw [eq_of_mem_replicate hwor]; rfl) actions
    (.parked future) (mem_of_getElem? hp) rfl
  have hr := (self.sound_pool score actions).registered
  have hd := (hr.filesDone_iff (self.contiguous_pool score hi actions)).mp hs.filesDone
  exact absurd hd (Bool.eq_false_iff.mp ho)

/-- Two workers and a file of one piece, with a byte from the server that nobody interrupts. -/
theorem second_worker_sleeps :
    (oneFile 2).scheduler.Contiguous ∧
      ((oneFile 2).pool (fun _ _ _ => (0 : Nat)) lateActions).Sleeps (fun _ _ _ => (0 : Nat)) 5
        (fun _ => []) 1 :=
  ⟨contiguous_oneFile 2, sleeps_oneFile _ 0⟩

end PoolSetup

end Aioduct.Cli
