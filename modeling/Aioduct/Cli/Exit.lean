import Aioduct.Cli.Segmented

/-!
# Exit status

`run` and `download_multi_mode` of `download/mod.rs` and `download_multi` of `download/engine.rs`:
from the probes to the exit status. What the servers and the disk do is an argument.
-/

namespace Aioduct.Cli

open Wire Http List Bool

structure DownloadResult where
  totalSize : Nat
  error : Option Bytes

/-- The output at the time it is verified; `checksum` is there if one is asked for. -/
structure Verification where
  name : Bytes
  osError : Bytes
  output : OutputEntry
  checksum : Option (Except Bytes Unit)

def Verification.verify (self : Verification) (totalSize : Nat) : DownloadResult :=
  match self.output.validateMetadata self.name self.osError totalSize with
  | .error message => ⟨totalSize, some message⟩
  | .ok () =>
    match self.checksum with
    | some (.error message) => ⟨totalSize, some message⟩
    | _ => ⟨totalSize, none⟩

/-- `verify_existing_output`: the size is the one that the output has. -/
def Verification.verifyExisting (self : Verification) : DownloadResult :=
  self.verify (match self.output with
    | .file content => content.length
    | _ => 0)

inductive RangeTransfer where
  | complete (verification : Verification)
  | directoryFailed (message : Bytes)
  | openFailed (message : Bytes)
  | pooled (remaining : Nat) (verification : Verification)

/-- What becomes of a task that is requested as a whole; the status of the response is only
kept. -/
inductive PlainTransfer where
  | refused (message : Bytes)
  | unsent (message : Bytes)
  | notCreated (status : StatusCode) (message : Bytes)
  | notWritten (status : StatusCode) (message : Bytes)
  | broken (status : StatusCode) (downloaded : Nat) (message : Bytes)
  | received (status : StatusCode) (downloaded : Nat) (verification : Verification)
  | lost (message : Bytes)

structure Task where
  supportsRange : Bool
  totalSize : Option Nat
  range : RangeTransfer
  plain : PlainTransfer

namespace Task

def isRange (self : Task) : Bool := self.supportsRange && self.totalSize.any (0 < ·)

/-- The result of a task of pieces that is known before the workers start. -/
def early (self : Task) : Option DownloadResult :=
  if self.isRange then
    match self.range with
    | .complete verification => some (verification.verify (self.totalSize.getD 0))
    | .directoryFailed message | .openFailed message => some ⟨0, some message⟩
    | .pooled _ _ => none
  else none

/-- The result of a task of pieces after the workers have ended. -/
def pooled (self : Task) : Option DownloadResult :=
  if self.isRange then
    match self.range with
    | .pooled remaining verification =>
      if 0 < remaining then some ⟨self.totalSize.getD 0, some (ascii "download incomplete")⟩
      else some (verification.verify (self.totalSize.getD 0))
    | _ => none
  else none

def plainResult : PlainTransfer → DownloadResult
  | .refused message | .unsent message | .notCreated _ message | .notWritten _ message
  | .lost message => ⟨0, some message⟩
  | .broken _ downloaded message => ⟨downloaded, some message⟩
  | .received _ downloaded verification => verification.verify downloaded

def whole (self : Task) : Option DownloadResult :=
  if self.isRange then none else some (plainResult self.plain)

end Task

def putResult (result : Task → Option DownloadResult) (results : List (Option DownloadResult))
    (entry : Task × Nat) : List (Option DownloadResult) :=
  match result entry.1 with
  | some r => results.set entry.2 (some r)
  | none => results

def fillResults (result : Task → Option DownloadResult) (tasks : List Task)
    (results : List (Option DownloadResult)) : List (Option DownloadResult) :=
  tasks.zipIdx.foldl (putResult result) results

def downloadMulti (tasks : List Task) : List DownloadResult :=
  let results := List.replicate tasks.length none
  let results := fillResults Task.early tasks results
  let results := fillResults Task.pooled tasks results
  let results := fillResults Task.whole tasks results
  results.filterMap id

structure Visit where
  probe : Except Error Task
  outputExists : Bool
  controlExists : Bool
  existing : Verification

namespace Visit

def skips (self : Visit) (hasChecksum : Bool) : Bool :=
  self.outputExists && !self.controlExists &&
    (!hasChecksum || self.existing.verifyExisting.error.isNone)

def isSkipped (self : Visit) (hasChecksum : Bool) : Bool :=
  match self.probe with
  | .ok _ => self.skips hasChecksum
  | .error _ => false

def task (self : Visit) (hasChecksum : Bool) : Option Task :=
  match self.probe with
  | .ok task => if self.skips hasChecksum then none else some task
  | .error _ => none

end Visit

def downloadMultiMode (hasChecksum : Bool) (visits : List Visit) : Nat :=
  let tasks := visits.filterMap (·.task hasChecksum)
  let skipped := visits.countP (·.isSkipped hasChecksum)
  if hasChecksum && 1 < tasks.length then 28
  else if tasks.isEmpty then
    if 0 < skipped then 0 else 28
  else if (downloadMulti tasks).any (·.error.isSome) then 1
  else 0

structure Command where
  /-- The URIs of the arguments and the input file. -/
  uris : Except Bytes (List Bytes)
  out : Option Bytes
  directory : Except Bytes Unit
  checksum : Except Bytes Bool
  recursive : Bool
  dryRun : Bool
  /-- The files that are found in the collection at a place of the list. -/
  enumerate : Nat → Except Error (List Bytes)
  /-- What happens to the URI at a place of the expanded list. -/
  visit : Nat → Visit

namespace Command

variable (self : Command)

def expandWebdavUris (uris : List Bytes) : List Bytes :=
  uris.zipIdx.flatMap fun (uri, idx) =>
    if (ascii "/").isSuffixOf uri then
      match self.enumerate idx with
      | .ok files => files
      | .error _ => [uri]
    else [uri]

def expanded (uris : List Bytes) : List Bytes :=
  if self.recursive then self.expandWebdavUris uris else uris

def visits (uris : List Bytes) : List Visit :=
  (List.range (self.expanded uris).length).map self.visit

def start (uris : List Bytes) (hasChecksum : Bool) : Nat :=
  if (self.expanded uris).isEmpty then 28
  else if self.dryRun then 0
  else downloadMultiMode hasChecksum (self.visits uris)

def run : Nat :=
  match self.uris with
  | .error _ => 28
  | .ok uris =>
    if uris.isEmpty then 28
    else if self.out.isSome && 1 < uris.length then 28
    else
      match self.directory with
      | .error _ => 15
      | .ok () =>
        match self.checksum with
        | .error _ => 28
        | .ok hasChecksum => self.start uris hasChecksum

end Command

lemma foldl_putResult (result : Task → Option DownloadResult) (tasks : List Task)
    {done rest : List (Option DownloadResult)} (h : rest.length = tasks.length) :
    (tasks.zipIdx done.length).foldl (putResult result) (done ++ rest) =
      done ++ List.zipWith (fun task old => (result task).or old) tasks rest := by
  induction tasks generalizing done rest with
  | nil =>
    rw [length_nil, length_eq_zero_iff] at h
    simp [h]
  | cons task tasks ih =>
    cases rest with
    | nil => simp at h
    | cons old rest =>
      have hp : putResult result (done ++ old :: rest) (task, done.length) =
          done ++ [(result task).or old] ++ rest := by
        unfold putResult
        cases result task with
        | none => simp
        | some r => simp
      have hlen : done.length + 1 = (done ++ [(result task).or old]).length := by simp
      rw [zipIdx_cons, foldl_cons, hp, hlen, ih (by simpa using h), zipWith_cons_cons, append_assoc]
      rfl

lemma fillResults_map (result old : Task → Option DownloadResult) (tasks : List Task) :
    fillResults result tasks (tasks.map old) =
      tasks.map fun task => (result task).or (old task) := by
  refine (@foldl_putResult result tasks [] _ (length_map _)).trans ?_
  rw [zipWith_map_right, zipWith_self]
  rfl

namespace Task

def result (self : Task) : DownloadResult :=
  if self.isRange then ((self.pooled).or self.early).getD ⟨0, none⟩ else plainResult self.plain

lemma results_eq (self : Task) :
    (self.whole).or ((self.pooled).or self.early) = some self.result := by
  unfold result whole
  split
  next hr =>
    simp only [pooled, early, if_pos hr]
    cases self.range with
    | complete verification => rfl
    | directoryFailed message => rfl
    | openFailed message => rfl
    | pooled remaining verification =>
      simp only
      split <;> rfl
  · rfl

end Task

lemma downloadMulti_eq (tasks : List Task) : downloadMulti tasks = tasks.map Task.result := by
  have hnone : List.replicate tasks.length (none : Option DownloadResult) =
      tasks.map fun _ => none := map_const'.symm
  unfold downloadMulti
  simp only [hnone, fillResults_map, Option.or_none]
  rw [map_congr_left (fun task _ => task.results_eq), filterMap_map]
  exact congrFun filterMap_eq_map tasks

/-- The status of the response, if the task is requested as a whole and has got one. -/
def PlainTransfer.status : PlainTransfer → Option StatusCode
  | .notCreated status _ | .notWritten status _ | .broken status _ _ | .received status _ _ =>
    some status
  | _ => none

def Task.finalStatus (self : Task) : Option StatusCode :=
  if self.isRange then none else self.plain.status

namespace Visit

variable (self : Visit)

/-- The URI was downloaded without an error; a task of pieces takes no response but 206. -/
def Downloaded (hasChecksum : Bool) : Prop :=
  ∃ task, self.task hasChecksum = some task ∧ task.result.error = none ∧
    (task.isRange = true ∨ ∃ status, task.finalStatus = some status ∧ status.isSuccess = true)

def ProbeFailed : Prop := ∃ error, self.probe = .error error

def BadStatus (hasChecksum : Bool) : Prop :=
  ∃ task status, self.task hasChecksum = some task ∧ task.finalStatus = some status ∧
    status.isSuccess = false

end Visit

namespace Command

def requested (self : Command) : List Visit :=
  match self.uris with
  | .ok uris => self.visits uris
  | .error _ => []

def hasChecksum (self : Command) : Bool :=
  match self.checksum with
  | .ok given => given
  | .error _ => false

/-- Success means that each URI was downloaded or is complete, and a failed probe or a status that
is no success is told. -/
structure Truthful (command : Command) : Prop where
  success : command.run = 0 → ∀ visit ∈ command.requested, command.dryRun = false ∧
    (visit.isSkipped command.hasChecksum = true ∨ visit.Downloaded command.hasChecksum)
  failure : ∀ visit ∈ command.requested,
    visit.ProbeFailed ∨ visit.BadStatus command.hasChecksum → command.run ≠ 0

/-- The arguments are accepted, and the URIs are not an empty collection. -/
def Accepted (command : Command) : Prop :=
  ∃ uris, command.uris = .ok uris ∧ uris ≠ [] ∧ (command.out.isSome && 1 < uris.length) = false ∧
    command.directory = .ok () ∧ command.checksum = .ok command.hasChecksum ∧
    command.expanded uris ≠ []

/-- A task that ends with an error, one checksum for several tasks, or nothing but failed probes. -/
inductive Fails (command : Command) : Prop where
  | task (visit : Visit) (task : Task) (mem : visit ∈ command.requested)
      (eq : visit.task command.hasChecksum = some task) (error : task.result.error ≠ none)
  | checksums (given : command.hasChecksum = true)
      (several : 1 < (command.requested.filterMap (·.task command.hasChecksum)).length)
  | probes (all : ∀ visit ∈ command.requested, visit.ProbeFailed)

lemma run_eq_start {self : Command} (h : self.Accepted) :
    self.requested ≠ [] ∧
      self.run = if self.dryRun then 0 else downloadMultiMode self.hasChecksum self.requested := by
  obtain ⟨uris, hu, hne, ho, hd, hc, he⟩ := h
  have hr : self.requested = self.visits uris := by simp [requested, hu]
  rw [hr]
  refine ⟨by simpa [visits] using he, ?_⟩
  simp [run, hu, hne, ho, hd, hc, start, he]

lemma accepted_of_run {self : Command} (h : self.run = 0) : self.Accepted := by
  unfold run at h
  split at h
  · cases h
  next uris hu =>
  split at h
  · cases h
  next hn =>
  split at h
  · cases h
  next ho =>
  split at h
  · cases h
  next hd =>
  split at h
  · cases h
  next given hc =>
  unfold start at h
  split at h
  · cases h
  next he =>
  exact ⟨uris, hu, by simpa using hn, Bool.eq_false_iff.mpr ho, hd, by simp [hasChecksum, hc],
    by simpa using he⟩

end Command

lemma exists_status_of_plainResult {transfer : PlainTransfer}
    (h : (Task.plainResult transfer).error = none) : ∃ status, transfer.status = some status := by
  cases transfer with
  | received status downloaded verification => exact ⟨status, rfl⟩
  | broken status downloaded message => cases h
  | refused message => cases h
  | unsent message => cases h
  | notCreated status message => cases h
  | notWritten status message => cases h
  | lost message => cases h

lemma Visit.probeFailed_iff {visit : Visit} {hasChecksum : Bool} :
    visit.ProbeFailed ↔ visit.task hasChecksum = none ∧ visit.isSkipped hasChecksum = false := by
  cases hp : visit.probe with
  | error error => simp [ProbeFailed, task, isSkipped, hp]
  | ok task => cases hs : visit.skips hasChecksum <;> simp [ProbeFailed, Visit.task, isSkipped, hp, hs]

namespace Command

lemma downloadMultiMode_eq_zero (command : Command) :
    downloadMultiMode command.hasChecksum command.requested = 0 ↔ ¬command.Fails := by
  simp only [downloadMultiMode, downloadMulti_eq]
  constructor
  · rintro h (⟨visit, task, hv, ht, he⟩ | ⟨hg, hs⟩ | hall)
    · have hm : task ∈ command.requested.filterMap (·.task command.hasChecksum) :=
        mem_filterMap.mpr ⟨visit, hv, ht⟩
      simp only [isEmpty_eq_false_iff.mpr (ne_nil_of_mem hm), false_eq_true, if_false] at h
      split_ifs at h with _ ha
      exact ha (any_eq_true.mpr ⟨_, mem_map_of_mem hm, Option.isSome_iff_ne_none.mpr he⟩)
    · rw [if_pos (by rw [decide_eq_true hs, hg]; rfl)] at h
      cases h
    · have hnone : command.requested.filterMap (·.task command.hasChecksum) = [] :=
        filterMap_eq_nil_iff.mpr fun visit hv => (Visit.probeFailed_iff.mp (hall visit hv)).1
      have hskip : command.requested.countP (·.isSkipped command.hasChecksum) = 0 :=
        countP_eq_zero.mpr fun visit hv => by simp [(Visit.probeFailed_iff.mp (hall visit hv)).2]
      simp [hnone, hskip] at h
  · intro h
    rw [if_neg fun hc => h (.checksums (and_eq_true_iff.mp hc).1
      (of_decide_eq_true (and_eq_true_iff.mp hc).2))]
    split_ifs with hempty hskip ha
    · rfl
    · refine absurd (.probes fun visit hv => ?_) h
      have ht := filterMap_eq_nil_iff.mp (isEmpty_iff.mp hempty) visit hv
      refine Visit.probeFailed_iff.mpr ⟨ht, ?_⟩
      simpa using countP_eq_zero.mp (Nat.eq_zero_of_not_pos hskip) visit hv
    · obtain ⟨result, hm, he⟩ := any_eq_true.mp ha
      obtain ⟨task, ht, rfl⟩ := mem_map.mp hm
      obtain ⟨visit, hv, heq⟩ := mem_filterMap.mp ht
      exact absurd (.task visit task hv heq (Option.isSome_iff_ne_none.mp he)) h
    · rfl

lemma run_eq_zero_iff (command : Command) :
    command.run = 0 ↔ command.Accepted ∧ (command.dryRun = true ∨ ¬command.Fails) := by
  constructor
  · intro h
    have ha := accepted_of_run h
    rw [(run_eq_start ha).2] at h
    refine ⟨ha, ?_⟩
    split at h
    next hd => exact .inl hd
    · exact .inr (command.downloadMultiMode_eq_zero.mp h)
  · rintro ⟨ha, h⟩
    rw [(run_eq_start ha).2]
    split
    · rfl
    next hd => exact command.downloadMultiMode_eq_zero.mpr (h.resolve_left hd)

lemma downloaded_of_not_fails {command : Command} (h : ¬command.Fails) {visit : Visit}
    (hv : visit ∈ command.requested) (hp : ¬ visit.ProbeFailed)
    (hsta : ¬ visit.BadStatus command.hasChecksum) :
    visit.isSkipped command.hasChecksum ∨ visit.Downloaded command.hasChecksum := by
  cases ht : visit.task command.hasChecksum with
  | none =>
    left
    by_contra hs
    exact hp (Visit.probeFailed_iff.mpr ⟨ht, Bool.eq_false_iff.mpr hs⟩)
  | some task =>
    have he : task.result.error = none := by
      by_contra he
      exact h (.task visit task hv ht he)
    refine .inr ⟨task, ht, he, ?_⟩
    by_cases hr : task.isRange
    · exact .inl hr
    rw [Task.result, if_neg hr] at he
    obtain ⟨status, hf⟩ := exists_status_of_plainResult he
    have hf' : task.finalStatus = some status := by
      rw [Task.finalStatus, if_neg hr, hf]
    refine .inr ⟨status, hf', ?_⟩
    by_contra hfailed
    exact hsta ⟨task, status, ht, hf', not_eq_true _ ▸ hfailed⟩

/-- Where the arguments are accepted, the exit status is right exactly when it is not a dry run, and
the run fails as a whole or no probe has failed and no response was an error. -/
theorem run_truthful_iff (command : Command) :
    command.Truthful ↔
      (command.Accepted → command.dryRun = false ∧
        (command.Fails ∨ ∀ visit ∈ command.requested,
          ¬ visit.ProbeFailed ∧ ¬ visit.BadStatus command.hasChecksum)) := by
  constructor
  · intro ht ha
    obtain ⟨hne, -⟩ := run_eq_start ha
    have hd : command.dryRun = false := by
      by_contra hd
      obtain ⟨first, rest, hr⟩ := exists_cons_of_ne_nil hne
      have hrun := command.run_eq_zero_iff.mpr ⟨ha, .inl (by simpa using hd)⟩
      exact hd (ht.success hrun first (hr ▸ mem_cons_self)).1
    refine ⟨hd, or_iff_not_imp_left.mpr fun hf visit hv => ?_⟩
    have hrun := command.run_eq_zero_iff.mpr ⟨ha, .inr hf⟩
    exact ⟨fun hp => ht.failure visit hv (.inl hp) hrun,
      fun hsta => ht.failure visit hv (.inr hsta) hrun⟩
  · intro hc
    have hg : command.run = 0 → command.dryRun = false ∧ ¬command.Fails ∧
        ∀ visit ∈ command.requested, ¬ visit.ProbeFailed ∧
          ¬ visit.BadStatus command.hasChecksum := by
      intro hrun
      obtain ⟨ha, h⟩ := command.run_eq_zero_iff.mp hrun
      obtain ⟨hd, hor⟩ := hc ha
      have hf := h.resolve_left (ne_true_of_eq_false hd)
      exact ⟨hd, hf, hor.resolve_left hf⟩
    refine ⟨fun hrun visit hv => ?_, fun visit hv hf hrun => ?_⟩
    · obtain ⟨hd, hf, hall⟩ := hg hrun
      exact ⟨hd, downloaded_of_not_fails hf hv (hall visit hv).1 (hall visit hv).2⟩
    · obtain ⟨hp, hsta⟩ := (hg hrun).2.2 visit hv
      exact hf.elim hp hsta

def notFound : Visit where
  probe := .ok
    { supportsRange := false
      totalSize := some 9
      range := .directoryFailed []
      plain := .received 404 9 ⟨[], [], .file ⟨9, fun _ => 0⟩, none⟩ }
  outputExists := false
  controlExists := false
  existing := ⟨[], [], .missing, none⟩

def unreachable : Visit := { notFound with probe := .error (.other (ascii "connect")) }

def already : Visit := { notFound with outputExists := true }

def sampleCommand (visits : List Visit) : Command where
  uris := .ok (visits.map fun _ => ascii "http://a/f")
  out := none
  directory := .ok ()
  checksum := .ok false
  recursive := false
  dryRun := false
  enumerate _ := .ok []
  visit i := visits.getD i notFound

/-- Neither a page that is not found nor a failed probe is told. -/
theorem failures_exit_with_success :
    (sampleCommand [notFound]).run = 0 ∧ (notFound.task false).bind Task.finalStatus = some 404 ∧
      (sampleCommand [already, unreachable]).run = 0 ∧ unreachable.probe.isOk = false := by
  decide

end Command

end Aioduct.Cli
