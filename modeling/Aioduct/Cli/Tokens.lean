import Aioduct.Cli.Segmented

/-!
# Tokens of a download

A download that begins before the end game has a child of the run's token, and one that begins in it
has the token of its piece. What cancels the one does not cancel the other.
-/

namespace Aioduct.Cli

open Wire EndGameTracker List Nat

variable {index token retries : Nat}

namespace EndGameTracker

/-- Each piece has a token of its own, which is cancelled when it is taken from the piece. -/
structure Distinct (tracker : EndGameTracker) : Prop where
  keys : (tracker.pieceTokens.map (·.1)).Nodup
  tokens : (tracker.pieceTokens.map (·.2)).Nodup
  made : ∀ entry ∈ tracker.pieceTokens, entry.2 < tracker.made
  live : ∀ entry ∈ tracker.pieceTokens, entry.2 ∉ tracker.cancelled
  cancelled : ∀ token ∈ tracker.cancelled, token < tracker.made

variable {self : EndGameTracker}

lemma mem_of_lookup (h : self.pieceTokens.lookup index = some token) :
    (index, token) ∈ self.pieceTokens := by
  obtain ⟨before, after, heq, -⟩ := lookup_eq_some_iff.mp h
  rw [heq]
  exact mem_append_right _ mem_cons_self

lemma Distinct.lookup (h : self.Distinct) (hm : (index, token) ∈ self.pieceTokens) :
    self.pieceTokens.lookup index = some token := by
  cases hl : self.pieceTokens.lookup index with
  | none => exact absurd (lookup_eq_none_iff.mp hl _ hm) (by simp)
  | some other =>
    have heq := inj_on_of_nodup_map h.keys (mem_of_lookup hl) hm rfl
    rw [Prod.mk.injEq] at heq
    rw [heq.2]

lemma Distinct.registerWorker (h : self.Distinct) (index : Nat) :
    (self.registerWorker index).2.Distinct := by
  unfold EndGameTracker.registerWorker
  split
  · exact h
  rename_i hnone
  refine ⟨nodup_cons.mpr ⟨fun hm => ?_, h.keys⟩,
    nodup_cons.mpr ⟨fun hm => ?_, h.tokens⟩, fun entry he => ?_, fun entry he => ?_,
    fun token ht => lt_succ_of_lt (h.cancelled token ht)⟩
  · obtain ⟨entry, he, heq⟩ := mem_map.mp hm
    exact absurd (lookup_eq_none_iff.mp hnone entry he) (by simp [heq])
  · obtain ⟨entry, he, heq⟩ := mem_map.mp hm
    have hlt := h.made entry he
    simp only at heq
    omega
  · rcases mem_cons.mp he with rfl | hold
    · exact lt_succ_self _
    · exact lt_succ_of_lt (h.made entry hold)
  · rcases mem_cons.mp he with rfl | hold
    · exact fun hc => lt_irrefl _ (h.cancelled _ hc)
    · exact h.live entry hold

lemma Distinct.pieceCompleted (h : self.Distinct) (index : Nat) :
    (self.pieceCompleted index).Distinct := by
  unfold EndGameTracker.pieceCompleted
  split
  next token hl =>
    have hm := mem_of_lookup hl
    have hs : (self.pieceTokens.filter (·.1 != index)).Sublist self.pieceTokens :=
      filter_sublist
    refine ⟨h.keys.sublist (hs.map _), h.tokens.sublist (hs.map _),
      fun entry he => h.made entry (hs.subset he), fun entry he hc => ?_,
      fun other ho => ?_⟩
    · obtain ⟨hold, hne⟩ := mem_filter.mp he
      rcases mem_cons.mp hc with heq | hc
      · rw [inj_on_of_nodup_map h.tokens hold hm heq] at hne
        simp at hne
      · exact h.live entry hold hc
    · rcases mem_cons.mp ho with rfl | ho
      · exact h.made _ hm
      · exact h.cancelled other ho
  · exact h

end EndGameTracker

variable {layout : Layout}

namespace SegmentMan

/-- The token of a job is that of its piece, or was cancelled when the piece was complete. -/
def Held (self : SegmentMan layout) (job : Job layout) : Prop :=
  ∀ token ∈ job.token, (job.piece.val, token) ∈ self.endgame.pieceTokens ∨
    token ∈ self.endgame.cancelled ∧ self.storage.isComplete job.piece = true

def Cut (self : SegmentMan layout) (job : Job layout) : Prop :=
  ∀ token ∈ job.token, self.storage.isComplete job.piece = true → token ∈ self.endgame.cancelled

/-- A change of the marks and tokens that respects jobs. -/
structure Follows (man next : SegmentMan layout) : Prop where
  distinct : man.endgame.Distinct → next.endgame.Distinct
  held : ∀ job, man.endgame.Distinct → man.Held job → next.Held job
  cut : ∀ job, man.endgame.Distinct → man.Held job → man.Cut job → next.Cut job

variable {self : SegmentMan layout}

lemma Follows.of_same {next : SegmentMan layout}
    (ht : next.endgame.pieceTokens = self.endgame.pieceTokens)
    (hm : next.endgame.made = self.endgame.made)
    (hc : next.endgame.cancelled = self.endgame.cancelled)
    (hb : next.storage.bitfield = self.storage.bitfield) : self.Follows next := by
  refine ⟨fun h => ⟨?_, ?_, ?_, ?_, ?_⟩, fun job _ h => ?_, fun job _ _ h => ?_⟩
  · exact ht ▸ h.keys
  · exact ht ▸ h.tokens
  · exact ht ▸ hm ▸ h.made
  · exact ht ▸ hc ▸ h.live
  · exact hc ▸ hm ▸ h.cancelled
  · simpa only [Held, PieceStorage.isComplete, ht, hc, hb] using h
  · simpa only [Cut, PieceStorage.isComplete, hc, hb] using h

lemma follows_nextPiece (self : SegmentMan layout) : self.Follows self.nextPiece.2 := by
  refine .of_same ?_ ?_ ?_ self.bitfield_nextPiece
  all_goals
    unfold nextPiece
    split
    · rfl
    · simp only [checkActivate]
      split <;> split <;> first | rfl | (split <;> rfl)

lemma follows_registerWorker (self : SegmentMan layout) (index : Nat) :
    self.Follows { self with endgame := (self.endgame.registerWorker index).2 } := by
  refine ⟨fun h => h.registerWorker index, fun job _ h token ht => ?_, fun job _ _ h => ?_⟩
  · simp only [registerWorker]
    split
    · exact h token ht
    · exact (h token ht).imp_left (mem_cons_of_mem _)
  · simp only [Cut, registerWorker]
    split <;> exact h

lemma held_registerWorker (self : SegmentMan layout) (piece : Fin layout.totalPieces) :
    { self with endgame := (self.endgame.registerWorker piece).2 : SegmentMan layout }.Held
      ⟨piece, some (self.endgame.registerWorker piece).1⟩ := by
  intro token ht
  cases ht
  left
  simp only [registerWorker]
  split
  · exact mem_of_lookup ‹_›
  · exact mem_cons_self

lemma follows_completePiece (self : SegmentMan layout) (piece : Fin layout.totalPieces) :
    self.Follows (self.completePiece piece) := by
  have hc : ∀ index : Fin layout.totalPieces,
      (self.completePiece piece).storage.isComplete index ↔
        index = piece ∨ self.storage.isComplete index := by
    intro index
    rw [completePiece, PieceStorage.isComplete_markComplete, Bool.or_eq_true, beq_iff_eq, Fin.ext_iff]
  have hcan : ∀ token ∈ self.endgame.cancelled,
      token ∈ (self.completePiece piece).endgame.cancelled := by
    intro token ht
    simp only [completePiece, pieceCompleted]
    split
    · exact mem_cons_of_mem _ ht
    · exact ht
  -- completing a piece cancels its token and takes it from the piece
  have htak : self.endgame.Distinct → ∀ token,
      (piece.val, token) ∈ self.endgame.pieceTokens →
        token ∈ (self.completePiece piece).endgame.cancelled := by
    intro hd token hm
    simp only [completePiece, pieceCompleted, hd.lookup hm]
    exact mem_cons_self
  have hk : ∀ entry ∈ self.endgame.pieceTokens, entry.1 ≠ piece.val →
      entry ∈ (self.completePiece piece).endgame.pieceTokens := by
    intro entry he hne
    simp only [completePiece, pieceCompleted]
    split
    · exact mem_filter.mpr ⟨he, bne_iff_ne.mpr hne⟩
    · exact he
  refine ⟨fun h => h.pieceCompleted piece, fun job hd h token ht => ?_,
    fun job hd hh h token ht hdon => ?_⟩
  · rcases h token ht with hm | ⟨hold, hdon⟩
    · by_cases heq : job.piece = piece
      · exact .inr ⟨htak hd token (heq ▸ hm), (hc _).mpr (.inl heq)⟩
      · exact .inl (hk _ hm fun hv => heq (Fin.ext hv))
    · exact .inr ⟨hcan token hold, (hc _).mpr (.inr hdon)⟩
  rcases (hc _).mp hdon with heq | hb
  · rcases hh token ht with hm | ⟨hold, -⟩
    · exact htak hd token (heq ▸ hm)
    · exact hcan token hold
  · exact hcan token (h token ht hb)

end SegmentMan

/-- The job of a worker holds its token, which is cancelled if the piece of a running download is
complete. -/
def Worker.Tracked (man : SegmentMan layout) : Worker layout → Prop
  | .downloading job _ => man.Held job ∧ man.Cut job
  | .attempt job _ | .received job _ _ | .writing job _ _ | .written job | .failed job _ _
  | .retried job _ _ => man.Held job
  | _ => True

variable {worker : Worker layout}

lemma Worker.Tracked.follows {man next : SegmentMan layout} (h : worker.Tracked man)
    (hd : man.endgame.Distinct) (hn : man.Follows next) : worker.Tracked next := by
  cases worker with
  | downloading job retries =>
    exact ⟨hn.held job hd h.1, hn.cut job hd h.1 h.2⟩
  | start | choosing | chosen | done => trivial
  | _ => exact hn.held _ hd h

namespace Session

structure Tracked (s : Session layout) : Prop where
  distinct : s.segments.endgame.Distinct
  workers : ∀ worker ∈ s.workers, worker.Tracked s.segments

variable {s : Session layout}

lemma Tracked.setWorker (h : s.Tracked) (i : Nat) (hw : worker.Tracked s.segments) :
    (s.setWorker i worker).Tracked := by
  refine ⟨h.distinct, fun other ho => ?_⟩
  rcases mem_or_eq_of_mem_set ho with hm | rfl
  · exact h.workers other hm
  · exact hw

lemma Tracked.setSegments (h : s.Tracked) {segments : SegmentMan layout}
    (hf : s.segments.Follows segments) : (s.setSegments segments).Tracked :=
  ⟨hf.distinct h.distinct, fun worker hw =>
    (h.workers worker hw).follows h.distinct hf⟩

lemma Tracked.workerStep (h : s.Tracked) (maxRetries : Nat) (message : Error → Bytes) (i : Nat)
    (input : Input) (hw : worker.Tracked s.segments) :
    (s.workerStep maxRetries message i input worker).Tracked := by
  have hm : ∀ segments : SegmentMan layout, segments.endgame = s.segments.endgame →
      segments.storage.bitfield = s.segments.storage.bitfield → s.segments.Follows segments :=
    fun segments he hb => .of_same (by rw [he]) (by rw [he])
      (by rw [he]) hb
  cases worker with
  | start => exact h.setWorker i (by split <;> trivial)
  | choosing =>
    exact (h.setSegments (s.segments.follows_nextPiece)).setWorker i (by split <;> trivial)
  | chosen piece =>
    simp only [workerStep, register]
    split
    · exact (h.setSegments (s.segments.follows_registerWorker piece)).setWorker i
        (s.segments.held_registerWorker piece)
    · exact h.setWorker i fun token ht => by cases ht
  | attempt job retries =>
    refine h.setWorker i ?_
    split
    · trivial
    next hi =>
      exact ⟨hw, fun token _ hd => absurd hd hi⟩
  | downloading job retries =>
    refine h.setWorker i ?_
    split <;> exact hw.1
  | received job exchange data =>
    refine h.setWorker i ?_
    split
    · trivial
    · exact hw
  | writing job exchange data =>
    have hwri : ∀ count, (s.write job exchange data count).Tracked :=
      fun count => ⟨h.distinct, h.workers⟩
    simp only [workerStep, writeStep]
    split
    · exact (hwri _).setWorker i hw
    · exact (hwri _).setWorker i trivial
  | written job =>
    exact (h.setSegments (s.segments.follows_completePiece job.piece)).setWorker i trivial
  | failed job retries error =>
    simp only [workerStep, failStep]
    split
    · exact h.setWorker i trivial
    split
    · exact (h.setSegments (hm (s.segments.failPiece job.piece) rfl rfl)).setWorker i trivial
    · have hr := hm (s.segments.recordPieceRetry job.piece (message error)) rfl rfl
      exact (h.setSegments hr).setWorker i (hr.held job h.distinct hw)
  | retried job retries error =>
    simp only [workerStep]
    split
    · have hf := hm (s.segments.markPieceFailed job.piece (message error)) rfl rfl
      exact (h.setSegments hf).setWorker i trivial
    · exact h.setWorker i hw
  | done result => exact h

lemma Tracked.run (h : s.Tracked) (maxRetries : Nat) (message : Error → Bytes)
    (actions : List SessionAction) : (s.run maxRetries message actions).Tracked := by
  induction actions generalizing s with
  | nil => exact h
  | cons action actions ih =>
    refine ih ?_
    cases action with
    | advance i input =>
      simp only [step]
      split
      next worker hw =>
        exact h.workerStep maxRetries message i input (h.workers worker (mem_of_getElem? hw))
      · exact h
    | cancel => exact ⟨h.distinct, h.workers⟩
    | panic i error =>
      simp only [step]
      split
      · exact h
      · exact h
      · exact h.setWorker i trivial

/-- The token of a running download is cancelled with the piece in the end game, and with the run
before it. -/
lemma Tracked.pieceCancelled_eq (h : s.Tracked) {job : Job layout}
    (hw : .downloading job retries ∈ s.workers) :
    s.pieceCancelled job = if job.token.isSome then s.isComplete job.piece else s.cancel := by
  obtain ⟨hh, hcut⟩ := h.workers _ hw
  unfold pieceCancelled
  cases ht : job.token with
  | none => rfl
  | some token =>
    rw [Bool.eq_iff_iff]
    simp only [isCancelled, contains_iff_mem, Option.isSome_some, if_true]
    refine ⟨fun hc => ?_, hcut token ht⟩
    rcases hh token ht with hm | ⟨-, hd⟩
    · exact absurd hc (h.distinct.live _ hm)
    · exact hd

/-- Every running download has a token that is cancelled with the run, and when its piece is
complete. -/
def Reached (s : Session layout) : Prop :=
  ∀ job retries, .downloading job retries ∈ s.workers →
    s.cancel = true ∨ s.isComplete job.piece = true → s.pieceCancelled job = true

end Session

namespace SegmentedRun

lemma session_tracked (self : SegmentedRun) (storage : PieceStorage layout) :
    (self.session storage).Tracked := by
  refine Session.Tracked.run (s := self.start storage)
    ⟨⟨nodup_nil, nodup_nil, ?_, ?_, ?_⟩, ?_⟩ _ _ _
  · exact fun entry he => absurd he not_mem_nil
  · exact fun entry he => absurd he not_mem_nil
  · exact fun token ht => absurd ht not_mem_nil
  · intro worker hw
    rw [eq_of_mem_replicate hw]
    trivial

/-- Cancellation reaches the downloads exactly when, after a cancellation, none that began in the
end game is still on a piece that is not complete, and before one none that began earlier is still
on a complete piece. -/
theorem reached_iff (self : SegmentedRun) (storage : PieceStorage layout) :
    (self.session storage).Reached ↔
      ∀ job retries, .downloading job retries ∈ (self.session storage).workers →
        if (self.session storage).cancel then
          job.token.isSome = true → (self.session storage).isComplete job.piece = true
        else (self.session storage).isComplete job.piece = true → job.token.isSome = true := by
  have ht := self.session_tracked storage
  refine forall_congr' fun job => forall_congr' fun retries => forall_congr' fun hw => ?_
  rw [ht.pieceCancelled_eq hw]
  cases (self.session storage).cancel <;>
    cases (self.session storage).isComplete job.piece <;> cases job.token <;> simp

/-- One file of one byte and one worker, which is in the end game at once; the run is cancelled
while it downloads. -/
def cancelledRun : SegmentedRun where
  splitCount := 1
  numWorkers := 1
  maxRetries := 5
  message _ := []
  outputName := []
  output := .missing
  osError := []
  opened := .ok ()
  actions := List.replicate 4 (.advance 0 ⟨⟨.error (.other []), []⟩, .ok (), 0⟩) ++ [.cancel]
  synced := .ok ()

theorem cancellation_missed : let s := cancelledRun.session (.new ⟨1, 65536, positive_65536⟩)
    s.cancel = true ∧ s.workers.map (fun
      | .downloading job _ => some (job.piece.val, s.pieceCancelled job)
      | _ => none) = [some (0, false)] := by decide

end SegmentedRun

end Aioduct.Cli
