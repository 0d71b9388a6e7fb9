import Aioduct.Error
import Aioduct.Http.Uri
import Aioduct.Wire.Action
import Aioduct.Wire.Machine

/-!
# Downloads in parts

`chunk_download/chunk_download_send.rs`: the parts of a resource are requested at the same time and
put together in order. The answers and the order in which the parts arrive are arguments.
-/

namespace Aioduct.Download

open Wire Http List Nat Except Fintype

variable {j k received total i : Nat} {data body : Bytes}

structure Response where
  status : StatusCode
  headers : HeaderMap
  /-- What reading the body ends with. -/
  body : Except Error Bytes

abbrev Reply := Except Error Response

/-- What the requests of a download are answered with; a part by the number of its task and the
value of `Range`. -/
structure Server where
  head : Reply
  get : Reply
  part : Nat → Bytes → Reply

structure ChunkDownload where
  chunks : Nat := 4
  pos : 0 < chunks := by decide

structure ChunkDownloadResult where
  totalSize : Nat
  data : Bytes
  deriving DecidableEq

/-- The tasks in the order in which they send what they have; each one sends once at most. -/
structure Arrivals (n : Nat) where
  order : List (Fin n)
  nodup : order.Nodup

def acceptRanges : HeaderName := ⟨ascii "accept-ranges", by decide⟩

variable (headers : HeaderMap)

def acceptsRanges : Bool :=
  ((headers.get acceptRanges).bind HeaderValue.toStr).any fun text =>
    text.tails.any (ascii "bytes").isPrefixOf

def contentLength : Option Nat :=
  ((headers.get .contentLength).bind HeaderValue.toStr).bind (parseUnsigned 64)

def Response.rangedSize (head : Response) : Option Nat :=
  (contentLength head.headers).filter fun len => acceptsRanges head.headers && 0 < len

structure ByteRange where
  start : Nat
  last : Nat

variable (range : ByteRange)

def ByteRange.size : Nat := range.last + 1 - range.start

def chunkRange (numChunks totalSize i : Nat) : ByteRange :=
  let chunkSize := totalSize / numChunks
  ⟨i * chunkSize, if i = numChunks - 1 then totalSize - 1 else (i + 1) * chunkSize - 1⟩

def rangeValue : Bytes := ascii "bytes=" ++ numeral range.start ++ ascii "-" ++ numeral range.last

def notPartial (status : StatusCode) : Error :=
  .other (ascii "chunk request failed: expected 206 Partial Content, got " ++ status.display)

def fetch (reply : Reply) : Except Error Bytes := do
  let response ← reply
  if response.status ≠ 206 then throw (notPartial response.status) else response.body

abbrev Results := List (Option (Except Error Bytes))

def tasksFailed (received numChunks : Nat) : Error :=
  .other (ascii "chunk download tasks failed: received " ++ numeral received ++ ascii "/" ++
    numeral numChunks ++ ascii " results")

/-- The loop that waits for all parts; the channel is closed when no task is left. -/
def receive (numChunks : Nat) (received : Nat) (results : Results) :
    List (Nat × Except Error Bytes) → Except Error Results
  | [] => if received < numChunks then .error (tasksFailed received numChunks) else .ok results
  | (i, result) :: messages =>
    if received < numChunks then
      receive numChunks (received + 1) (results.set i (some result)) messages
    else .ok results

def assemble : Results → Except Error Bytes
  | [] => .ok []
  | none :: _ => .error (.other (ascii "missing chunk"))
  | some result :: results => do
    let data ← result
    pure (data ++ (← assemble results))

namespace ChunkDownload

variable (self : ChunkDownload)

def numChunks (totalSize : Nat) : Nat := min self.chunks totalSize

variable (server : Server)

def answer (totalSize i : Nat) : Reply :=
  server.part i (rangeValue (chunkRange (self.numChunks totalSize) totalSize i))

def downloadRanges (totalSize : Nat)
    (arrivals : Arrivals (self.numChunks totalSize)) : Except Error ChunkDownloadResult := do
  let n := self.numChunks totalSize
  let results ← receive n 0 (List.replicate n none)
    (arrivals.order.map fun i : Fin _ => (i.val, fetch (self.answer server totalSize i.val)))
  let data ← assemble results
  pure ⟨totalSize, data⟩

def downloadWhole : Except Error ChunkDownloadResult := do
  let response ← server.get
  let data ← response.body
  pure ⟨data.length, data⟩

def headFailed (status : StatusCode) : Error :=
  .other (ascii "HEAD request failed: " ++ status.display)

def askSize : Except Error (Option Nat) := do
  let head ← server.head
  if head.status.isSuccess then pure head.rangedSize else throw (headFailed head.status)

def download (arrivals : ∀ n, Arrivals n) : Except Error ChunkDownloadResult := do
  match ← askSize server with
  | some totalSize => self.downloadRanges server totalSize (arrivals _)
  | none => downloadWhole server

end ChunkDownload

section Ranges

variable {n total : Nat} (hn : 0 < n) (hle : n ≤ total)

include hn hle

lemma chunkSize_pos : 0 < total / n := Nat.div_pos hle hn

variable {i : Nat}

lemma chunkRange_last_succ (hi : i + 1 < n) :
    (chunkRange n total i).last + 1 = (chunkRange n total (i + 1)).start := by
  have hpos : 0 < (i + 1) * (total / n) := Nat.mul_pos (Nat.succ_pos i) (chunkSize_pos hn hle)
  have hne : i ≠ n - 1 := by omega
  simp only [chunkRange, if_neg hne]
  omega

omit hn hle in
lemma chunkRange_last_end : (chunkRange n total (n - 1)).last = total - 1 := if_pos rfl

lemma start_lt_last_succ (hi : i < n) :
    (chunkRange n total i).start < (chunkRange n total i).last + 1 ∧
      (chunkRange n total i).last < total := by
  have hpos := chunkSize_pos hn hle
  have hm : n * (total / n) ≤ total := mul_div_le total n
  have hsucc : (i + 1) * (total / n) = i * (total / n) + total / n := succ_mul i _
  have hs : (i + 1) * (total / n) ≤ n * (total / n) := mul_le_mul_right _ hi
  simp only [chunkRange]
  split <;> omega

lemma last_lt_start (hij : i < j) (hj : j < n) :
    (chunkRange n total i).last < (chunkRange n total j).start := by
  have hpos : 0 < (i + 1) * (total / n) := Nat.mul_pos (Nat.succ_pos i) (chunkSize_pos hn hle)
  have hs : (i + 1) * (total / n) ≤ j * (total / n) := mul_le_mul_right _ hij
  have hne : i ≠ n - 1 := by omega
  simp only [chunkRange, if_neg hne]
  omega

lemma exists_mem_chunkRange (hk : k < total) :
    ∃ i < n, (chunkRange n total i).start ≤ k ∧ k ≤ (chunkRange n total i).last := by
  have hpos := chunkSize_pos hn hle
  have hd : k / (total / n) * (total / n) ≤ k := div_mul_le_self k _
  have hlt : k < (k / (total / n) + 1) * (total / n) := by
    rw [mul_comm]
    exact lt_mul_div_succ k hpos
  by_cases hl : k / (total / n) < n - 1
  · refine ⟨k / (total / n), by omega, hd, ?_⟩
    have hne : k / (total / n) ≠ n - 1 := by omega
    simp only [chunkRange, if_neg hne]
    omega
  have hs : (n - 1) * (total / n) ≤ k / (total / n) * (total / n) :=
    mul_le_mul_right _ (not_lt.mp hl)
  refine ⟨n - 1, by omega, hs.trans hd, ?_⟩
  rw [chunkRange_last_end]
  omega

lemma existsUnique_chunkRange (hk : k < total) :
    ∃! i, i < n ∧ (chunkRange n total i).start ≤ k ∧ k ≤ (chunkRange n total i).last := by
  obtain ⟨i, hi, hs, hl⟩ := exists_mem_chunkRange hn hle hk
  refine ⟨i, ⟨hi, hs, hl⟩, ?_⟩
  rintro j ⟨hj, hs', hl'⟩
  rcases lt_trichotomy i j with h | h | h
  · have hg := last_lt_start hn hle h hj
    omega
  · exact h.symm
  · have hg := last_lt_start hn hle h hi
    omega

end Ranges

/-! ### The parts put together -/

section Parts

variable {n : Nat} (f : Fin n → Except Error Bytes) (results : Results)

def filled (order : List (Fin n)) : Results :=
  order.foldl (fun results i => results.set i.val (some (f i))) results

lemma getElem?_filled (hlen : results.length = n) (order : List (Fin n)) (i : Fin n) :
    (filled f results order)[i.val]? = if i ∈ order then some (some (f i)) else results[i.val]? := by
  induction order generalizing results with
  | nil => simp [filled]
  | cons first order ih =>
    have hs : filled f results (first :: order) =
        filled f (results.set first.val (some (f first))) order := rfl
    rw [hs, ih _ (by simpa using hlen)]
    by_cases hm : i ∈ order
    · simp [hm]
    by_cases hf : i = first
    · subst hf
      simp [hm, hlen]
    · have hne : first.val ≠ i.val := fun h => hf (Fin.ext h.symm)
      simp [hm, hf, getElem?_set_ne hne]

lemma length_filled (order : List (Fin n)) : (filled f results order).length = results.length := by
  induction order generalizing results with
  | nil => rfl
  | cons first order ih =>
    have hs : filled f results (first :: order) =
        filled f (results.set first.val (some (f first))) order := rfl
    rw [hs, ih, length_set]

lemma receive_eq_ok {results results' : Results} {order : List (Fin n)}
    (hle : received + order.length ≤ n)
    (h : receive n received results (order.map fun i => (i.val, f i)) = .ok results') :
    received + order.length = n ∧ results' = filled f results order := by
  induction order generalizing received results with
  | nil =>
    simp only [map_nil, receive] at h
    split_ifs at h
    · cases h
      exact ⟨by omega, rfl⟩
  | cons first order ih =>
    simp only [length_cons] at hle ⊢
    simp only [map_cons, receive, if_pos (show received < n by omega)] at h
    obtain ⟨hall, hr⟩ := ih (by omega) h
    exact ⟨by omega, hr⟩

lemma mem_order (arrivals : Arrivals n) (h : arrivals.order.length = n) (i : Fin n) :
    i ∈ arrivals.order := by
  have hc : arrivals.order.toFinset.card = card (Fin n) := by
    rw [toFinset_card_of_nodup arrivals.nodup, Fintype.card_fin, h]
  rw [← mem_toFinset, Finset.eq_univ_of_card _ hc]
  exact Finset.mem_univ i

lemma length_order_le (arrivals : Arrivals n) : arrivals.order.length ≤ n := by
  have hc := arrivals.nodup.length_le_card
  rwa [Fintype.card_fin] at hc

lemma receive_arrivals {arrivals : Arrivals n} {results : Results}
    (h : receive n 0 (List.replicate n none) (arrivals.order.map fun i => (i.val, f i)) =
      .ok results) :
    results = List.ofFn fun i => some (f i) := by
  obtain ⟨hall, rfl⟩ := receive_eq_ok f (by simpa using length_order_le arrivals) h
  rw [zero_add] at hall
  apply ext_getElem?
  intro i
  by_cases hi : i < n
  · have hf := getElem?_filled f (replicate n none) (length_replicate ..) arrivals.order ⟨i, hi⟩
    rw [if_pos (mem_order arrivals hall ⟨i, hi⟩)] at hf
    rw [hf, List.getElem?_ofFn, dif_pos hi]
  rw [getElem?_eq_none, getElem?_eq_none]
  · rw [length_ofFn]
    omega
  · rw [length_filled, length_replicate]
    omega

end Parts

lemma assemble_eq_ok {results : Results} (h : assemble results = .ok data) :
    ∃ bodies : List Bytes, results = bodies.map (fun body => some (.ok body)) ∧
      data = bodies.flatten := by
  induction results generalizing data with
  | nil =>
    cases h
    exact ⟨[], rfl, rfl⟩
  | cons result results ih =>
    cases result with
    | none => cases h
    | some result =>
      obtain ⟨body, hb, hr⟩ := bind_eq_ok.mp h
      obtain ⟨rest, hr, hd⟩ := bind_eq_ok.mp hr
      obtain ⟨bodies, rfl, rfl⟩ := ih hr
      cases hd
      rw [hb]
      exact ⟨body :: bodies, rfl, rfl⟩

lemma fetch_eq_ok {reply : Reply} (h : fetch reply = .ok body) :
    ∃ response, reply = .ok response ∧ response.status = 206 ∧ response.body = .ok body := by
  obtain ⟨response, hr, hb⟩ := bind_eq_ok.mp h
  split_ifs at hb
  next hs =>
    exact ⟨response, hr, not_not.mp hs, hb⟩

variable {server : Server}

lemma ChunkDownload.downloadRanges_eq_ok {self : ChunkDownload}
    {arrivals : Arrivals (self.numChunks total)} {result : ChunkDownloadResult}
    (h : self.downloadRanges server total arrivals = .ok result) :
    ∃ bodies : List Bytes, bodies.length = self.numChunks total ∧
      (∀ i (hi : i < bodies.length), ∃ response, self.answer server total i = .ok response ∧
        response.status = 206 ∧ response.body = .ok bodies[i]) ∧
      result = ⟨total, bodies.flatten⟩ := by
  obtain ⟨results, hr, h⟩ := bind_eq_ok.mp h
  obtain ⟨data, ha, h⟩ := bind_eq_ok.mp h
  cases h
  have hres := receive_arrivals _ hr
  obtain ⟨bodies, hb, rfl⟩ := assemble_eq_ok ha
  rw [hres] at hb
  have hlen : bodies.length = self.numChunks total := by
    have hl := congrArg length hb
    simpa using hl.symm
  refine ⟨bodies, hlen, fun i hi => ?_, rfl⟩
  have hg := congrArg (fun l : Results => l[i]?) hb
  simp only [List.getElem?_ofFn, dif_pos (hlen ▸ hi), List.getElem?_map,
    List.getElem?_eq_getElem hi, Option.map_some, Option.some.injEq] at hg
  exact fetch_eq_ok hg

/-! ### What a download should be -/

def contentRangeName : HeaderName := ⟨ascii "content-range", by decide⟩

def contentRange : Option ByteRange := do
  let text ← (headers.get contentRangeName).bind HeaderValue.toStr
  let range ← text.dropPrefix? (ascii "bytes ")
  let (range, _) ← splitOnce (ascii "/") range
  let (start, last) ← splitOnce (ascii "-") range
  pure ⟨← parseUnsigned 64 start, ← parseUnsigned 64 last⟩

def ByteRange.slice (data : Bytes) : Bytes := (data.drop range.start).take range.size

namespace ChunkDownload

variable (self : ChunkDownload)

def requested (total i : Nat) : ByteRange := chunkRange (self.numChunks total) total i

/-- The data is the resource, part for part as the server has sent it. -/
structure Assembled (plan : ChunkDownload) (server : Server) (total : Nat)
    (result : ChunkDownloadResult) : Prop where
  totalSize : result.totalSize = total
  inside : ∀ i < plan.numChunks total,
    (plan.requested total i).start ≤ (plan.requested total i).last ∧
      (plan.requested total i).last < total
  covered : ∀ k < total, ∃! i, i < plan.numChunks total ∧
    (plan.requested total i).start ≤ k ∧ k ≤ (plan.requested total i).last
  length : result.data.length = total
  places : ∀ i < plan.numChunks total, ∃ response, plan.answer server total i = .ok response ∧
    response.status = 206 ∧ contentRange response.headers = some (plan.requested total i) ∧
    response.body = .ok ((plan.requested total i).slice result.data)

def Faithful (server : Server) (result : ChunkDownloadResult) : Prop :=
  match askSize server with
  | .error _ => False
  | .ok (some total) => self.Assembled server total result
  | .ok none => ∃ response, server.get = .ok response ∧ response.status.isSuccess = true ∧
      response.body = .ok result.data

def Answered (server : Server) : Prop :=
  match askSize server with
  | .error _ => False
  | .ok (some total) => ∀ i < self.numChunks total, ∃ response body,
      self.answer server total i = .ok response ∧
      contentRange response.headers = some (self.requested total i) ∧
      response.body = .ok body ∧ body.length = (self.requested total i).size
  | .ok none => ∃ response, server.get = .ok response ∧ response.status.isSuccess = true

lemma askSize_pos (h : askSize server = .ok (some total)) : 0 < total := by
  obtain ⟨head, -, hs⟩ := bind_eq_ok.mp h
  split at hs
  · have hs : head.rangedSize = some total := ok.inj hs
    have hpos := (Option.filter_eq_some_iff.mp hs).2
    simp only [Bool.and_eq_true, decide_eq_true_eq] at hpos
    exact hpos.2
  · cases hs

section Sizes

variable (self : ChunkDownload) {total : Nat} (htotal : 0 < total)

include htotal

lemma numChunks_pos : 0 < self.numChunks total := Nat.lt_min.mpr ⟨self.pos, htotal⟩

omit htotal in
lemma numChunks_le : self.numChunks total ≤ total := Nat.min_le_right _ _

variable {bodies : List Bytes}

lemma length_flatten_take (hlen : bodies.length = self.numChunks total)
    (hsiz : ∀ i (hi : i < bodies.length), bodies[i].length = (self.requested total i).size)
    (hi : i < bodies.length) :
    (bodies.take i).flatten.length = (self.requested total i).start := by
  have hn := self.numChunks_pos htotal
  have hle : self.numChunks total ≤ total := self.numChunks_le
  induction i with
  | zero => simp [requested, chunkRange]
  | succ i ih =>
    have hp : i < bodies.length := by omega
    have hsucc : (self.requested total i).last + 1 = (self.requested total (i + 1)).start :=
      chunkRange_last_succ hn hle (by omega)
    have hs := (start_lt_last_succ hn hle (show i < self.numChunks total by omega)).1
    have hsi : (self.requested total i).size =
        (self.requested total i).last + 1 - (self.requested total i).start := rfl
    have hs : (self.requested total i).start < (self.requested total i).last + 1 := hs
    rw [take_succ_eq_append_getElem hp, flatten_append, length_append,
      ih hp, flatten_singleton, hsiz i hp, hsi]
    omega

lemma length_flatten (hlen : bodies.length = self.numChunks total)
    (hs : ∀ i (hi : i < bodies.length), bodies[i].length = (self.requested total i).size) :
    bodies.flatten.length = total := by
  have hn := self.numChunks_pos htotal
  have hi : self.numChunks total - 1 < bodies.length := by omega
  have ht := self.length_flatten_take htotal hlen hs hi
  have hsta := (start_lt_last_succ hn self.numChunks_le
    (show self.numChunks total - 1 < self.numChunks total by omega)).1
  have hl : (self.requested total (self.numChunks total - 1)).last = total - 1 :=
    chunkRange_last_end
  have hsiz : (self.requested total (self.numChunks total - 1)).size =
      (self.requested total (self.numChunks total - 1)).last + 1 -
        (self.requested total (self.numChunks total - 1)).start := rfl
  have hsta : (self.requested total (self.numChunks total - 1)).start <
      (self.requested total (self.numChunks total - 1)).last + 1 := hsta
  have hall : bodies.take (self.numChunks total - 1 + 1) = bodies :=
    take_of_length_le (by omega)
  rw [← hall, take_succ_eq_append_getElem hi, flatten_append, length_append, ht,
    flatten_singleton, hs _ hi, hsiz, hl]
  omega

lemma length_slice (hd : data.length = total) (hi : i < self.numChunks total) :
    ((self.requested total i).slice data).length = (self.requested total i).size := by
  have hins := start_lt_last_succ (self.numChunks_pos htotal) self.numChunks_le hi
  have hins : (self.requested total i).start < (self.requested total i).last + 1 ∧
      (self.requested total i).last < total := hins
  rw [ByteRange.slice, length_take, length_drop, hd, ByteRange.size]
  omega

lemma assembled_of_sizes (hlen : bodies.length = self.numChunks total)
    (ha : ∀ i (hi : i < bodies.length), ∃ response,
      self.answer server total i = .ok response ∧ response.status = 206 ∧
        contentRange response.headers = some (self.requested total i) ∧
        response.body = .ok bodies[i])
    (hs : ∀ i (hi : i < bodies.length), bodies[i].length = (self.requested total i).size) :
    self.Assembled server total ⟨total, bodies.flatten⟩ where
  totalSize := rfl
  inside i hi := by
    have hins := start_lt_last_succ (self.numChunks_pos htotal) self.numChunks_le hi
    exact ⟨Nat.le_of_lt_succ hins.1, hins.2⟩
  covered k hk := existsUnique_chunkRange (self.numChunks_pos htotal) self.numChunks_le hk
  length := self.length_flatten htotal hlen hs
  places i hi := by
    have hi : i < bodies.length := by omega
    obtain ⟨response, hans, hsta, hr, hb⟩ := ha i hi
    have hsli : (self.requested total i).slice bodies.flatten = bodies[i] := by
      rw [ByteRange.slice, ← self.length_flatten_take htotal hlen hs hi, ← hs i hi]
      exact slice_flatten bodies hi
    exact ⟨response, hans, hsta, hr, hsli ▸ hb⟩

end Sizes

/-- A download that ends well is the resource exactly if each request was answered with what it
asked for. -/
theorem download_faithful_iff {self : ChunkDownload} {server : Server} {arrivals : ∀ n, Arrivals n}
    {result : ChunkDownloadResult} (h : self.download server arrivals = .ok result) :
    self.Faithful server result ↔ self.Answered server := by
  obtain ⟨size, hs, h⟩ := bind_eq_ok.mp h
  unfold Faithful Answered
  rw [hs]
  cases size with
  | none =>
    obtain ⟨response, hg, h⟩ := bind_eq_ok.mp h
    obtain ⟨data, hb, h⟩ := bind_eq_ok.mp h
    cases h
    constructor
    · rintro ⟨response, hg, hsuc, -⟩
      exact ⟨response, hg, hsuc⟩
    · rintro ⟨other, ho, hsuc⟩
      obtain rfl : response = other := ok.inj (hg.symm.trans ho)
      exact ⟨response, hg, hsuc, hb⟩
  | some total =>
    have htotal := askSize_pos hs
    obtain ⟨bodies, hl, han, rfl⟩ := downloadRanges_eq_ok h
    constructor
    · intro (hass : self.Assembled server total _) i hi
      obtain ⟨response, ha, -, hr, hb⟩ := hass.places i hi
      exact ⟨response, _, ha, hr, hb, self.length_slice htotal hass.length hi⟩
    intro hans
    have hm : ∀ i (hi : i < bodies.length), ∃ response,
        self.answer server total i = .ok response ∧ response.status = 206 ∧
          contentRange response.headers = some (self.requested total i) ∧
          response.body = .ok bodies[i] ∧
          bodies[i].length = (self.requested total i).size := by
      intro i hi
      obtain ⟨response, ha, hsta, hb⟩ := han i hi
      obtain ⟨other, body, ho, hr, hb', hs⟩ := hans i (by omega)
      obtain rfl : response = other := ok.inj (ha.symm.trans ho)
      obtain rfl : bodies[i] = body := ok.inj (hb.symm.trans hb')
      exact ⟨response, ha, hsta, hr, hb, hs⟩
    apply self.assembled_of_sizes htotal hl
    · intro i hi
      obtain ⟨response, ha, hsta, hr, hb, -⟩ := hm i hi
      exact ⟨response, ha, hsta, hr, hb⟩
    · intro i hi
      obtain ⟨response, -, -, -, -, hs⟩ := hm i hi
      exact hs

def headAnswer : Response where
  status := 200
  headers := ⟨[(acceptRanges, ⟨ascii "bytes", by decide⟩),
    (.contentLength, ⟨ascii "4", by decide⟩)]⟩
  body := .ok []

def goodServer : Server where
  head := .ok headAnswer
  get := .ok ⟨200, ⟨[]⟩, .ok (ascii "abcd")⟩
  part i _ :=
    if i = 0 then
      .ok ⟨206, ⟨[(contentRangeName, ⟨ascii "bytes 0-1/4", by decide⟩)]⟩, .ok (ascii "ab")⟩
    else .ok ⟨206, ⟨[(contentRangeName, ⟨ascii "bytes 2-3/4", by decide⟩)]⟩, .ok (ascii "cd")⟩

def eagerServer : Server where
  head := .ok headAnswer
  get := .ok ⟨200, ⟨[]⟩, .ok (ascii "abcd")⟩
  part _ _ :=
    .ok ⟨206, ⟨[(contentRangeName, ⟨ascii "bytes 0-3/4", by decide⟩)]⟩, .ok (ascii "abcd")⟩

/-- One without ranges, which does not have the resource any more. -/
def missingServer : Server where
  head := .ok ⟨200, ⟨[]⟩, .ok []⟩
  get := .ok ⟨404, ⟨[]⟩, .ok (ascii "not found")⟩
  part _ _ := .ok ⟨404, ⟨[]⟩, .ok []⟩

def lastFirst (n : Nat) : Arrivals n :=
  ⟨(List.finRange n).reverse, List.nodup_reverse.mpr (List.nodup_finRange n)⟩

theorem download_faithful_iff_reversed :
    Faithful ⟨2, by decide⟩ goodServer ⟨4, ascii "abcd"⟩ ↔
      Answered ⟨2, by decide⟩ goodServer :=
  download_faithful_iff (show download ⟨2, by decide⟩ goodServer lastFirst = _ by decide)

/-- Eight bytes are given out for a resource of four, and an error page for one that is missing. -/
theorem wrong_answers_accepted :
    (download ⟨2, by decide⟩ eagerServer lastFirst = .ok ⟨4, ascii "abcdabcd"⟩ ∧
      ¬Faithful ⟨2, by decide⟩ eagerServer ⟨4, ascii "abcdabcd"⟩) ∧
    (download ⟨2, by decide⟩ missingServer lastFirst = .ok ⟨9, ascii "not found"⟩ ∧
      ¬Faithful ⟨2, by decide⟩ missingServer ⟨9, ascii "not found"⟩) := by
  refine ⟨⟨by decide, fun h => ?_⟩, by decide, fun h => ?_⟩
  · have hsiz : askSize eagerServer = .ok (some 4) := by decide
    exact absurd h.length (by decide)
  · obtain ⟨response, hg, hs, -⟩ := h
    cases hg
    cases hs

end ChunkDownload

end Aioduct.Download
