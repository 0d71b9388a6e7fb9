import Aioduct.Wire.Bytes

/-!
# UTF-8

Well-formedness is recognised by an automaton over bytes: a lead byte fixes the range of the next
byte and the number of continuation bytes after it.
-/

namespace Wire.Utf8

open List Nat Or

variable {fuel : Nat} {unfinished : Bytes}

/-- The automaton is between characters, or expects a byte in `[lo, hi]` and then `rest`
continuation bytes. -/
inductive State where
  | start
  | more (lo hi : UInt8) (rest : Nat)
  deriving DecidableEq, Repr

def lead (b : UInt8) : Option State :=
  if b < 0x80 then some .start
  else if 0xC2 ≤ b && b ≤ 0xDF then some (.more 0x80 0xBF 0)
  else if b = 0xE0 then some (.more 0xA0 0xBF 1)
  else if b = 0xED then some (.more 0x80 0x9F 1)
  else if 0xE1 ≤ b && b ≤ 0xEF then some (.more 0x80 0xBF 1)
  else if b = 0xF0 then some (.more 0x90 0xBF 2)
  else if 0xF1 ≤ b && b ≤ 0xF3 then some (.more 0x80 0xBF 2)
  else if b = 0xF4 then some (.more 0x80 0x8F 2)
  else none

def advance : State → UInt8 → Option State
  | .start, b => lead b
  | .more lo hi rest, b =>
    if lo ≤ b && b ≤ hi then
      some (match rest with
        | 0 => .start
        | n + 1 => .more 0x80 0xBF n)
    else none

def validFrom : State → Bytes → Bool
  | .start, [] => true
  | .more .., [] => false
  | state, b :: s =>
    match advance state b with
    | some next => validFrom next s
    | none => false

/-- The `from_utf8` test. -/
def valid (s : Bytes) : Bool := validFrom .start s

/-- The encodings of the white space characters. -/
def whitespace : List Bytes :=
  [[0x09], [0x0A], [0x0B], [0x0C], [0x0D], [0x20], [0xC2, 0x85], [0xC2, 0xA0],
    [0xE1, 0x9A, 0x80], [0xE2, 0x80, 0x80], [0xE2, 0x80, 0x81], [0xE2, 0x80, 0x82],
    [0xE2, 0x80, 0x83], [0xE2, 0x80, 0x84], [0xE2, 0x80, 0x85], [0xE2, 0x80, 0x86],
    [0xE2, 0x80, 0x87], [0xE2, 0x80, 0x88], [0xE2, 0x80, 0x89], [0xE2, 0x80, 0x8A],
    [0xE2, 0x80, 0xA8], [0xE2, 0x80, 0xA9], [0xE2, 0x80, 0xAF], [0xE2, 0x81, 0x9F],
    [0xE3, 0x80, 0x80]]

def trimStart : Nat → Bytes → Bytes
  | 0, s => s
  | fuel + 1, s =>
    match whitespace.findSome? (List.dropPrefix? s ·) with
    | some rest => trimStart fuel rest
    | none => s

def trimEnd : Nat → Bytes → Bytes
  | 0, s => s
  | fuel + 1, s =>
    match whitespace.findSome? (List.dropSuffix? s ·) with
    | some rest => trimEnd fuel rest
    | none => s

def trimText (s : Bytes) : Bytes :=
  let s := trimStart s.length s
  trimEnd s.length s

variable {b lo hi : UInt8} {s : Bytes} {rest : Nat}

lemma mem_of_mem_trimStart : ∀ {fuel : Nat} {s : Bytes}, b ∈ trimStart fuel s → b ∈ s
  | 0, _, h => h
  | fuel + 1, s, h => by
    unfold trimStart at h
    split at h
    next rest hr =>
      obtain ⟨space, -, hd⟩ := exists_of_findSome?_eq_some hr
      rw [dropPrefix?_eq_some.mp hd]
      exact mem_append_right _ (mem_of_mem_trimStart h)
    · exact h

lemma mem_of_mem_trimEnd : ∀ {fuel : Nat} {s : Bytes}, b ∈ trimEnd fuel s → b ∈ s
  | 0, _, h => h
  | fuel + 1, s, h => by
    unfold trimEnd at h
    split at h
    next rest hr =>
      obtain ⟨space, -, hd⟩ := exists_of_findSome?_eq_some hr
      obtain ⟨tail, rfl, -⟩ := List.dropSuffix?_eq_some_iff.mp hd
      exact mem_append_left _ (mem_of_mem_trimEnd h)
    · exact h

lemma mem_of_mem_trimText (h : b ∈ trimText s) : b ∈ s :=
  mem_of_mem_trimStart (mem_of_mem_trimEnd h)

/-- A space of more than one byte has no byte of ASCII. -/
lemma whitespace_ascii {space : Bytes} (hs : space ∈ whitespace) (hb : b ∈ space) (hlt : b < 128) :
    isWhitespace b ∧ space = [b] := by
  have hall : ∀ space ∈ whitespace,
      space.length = 1 ∧ space.all isWhitespace ∨ space.all (128 ≤ ·) := by decide
  rcases hall space hs with ⟨hlen, hw⟩ | hge
  · obtain ⟨c, rfl⟩ := length_eq_one_iff.mp hlen
    obtain rfl := mem_singleton.mp hb
    exact ⟨by simpa using hw, rfl⟩
  · have hle := all_eq_true.mp hge b hb
    exact absurd hlt (by simpa using hle)

lemma singleton_mem_whitespace (h : isWhitespace b) : [b] ∈ whitespace := by
  have hall : ∀ b : UInt8, isWhitespace b → [b] ∈ whitespace := by
    decide +kernel
  exact hall b h

/-- One round of trimming, by what is dropped for the character next to the edge. -/
lemma findSome?_whitespace {drop : Bytes → Option Bytes} (ho : drop [b] = some s)
    (hd : ∀ space ∈ whitespace, ∀ rest, drop space = some rest →
      isWhitespace b ∧ rest = s) :
    whitespace.findSome? drop = if isWhitespace b then some s else none := by
  cases hf : whitespace.findSome? drop with
  | some rest =>
    obtain ⟨space, hs, hr⟩ := exists_of_findSome?_eq_some hf
    obtain ⟨hb, rfl⟩ := hd space hs rest hr
    rw [if_pos hb]
  | none =>
    rw [if_neg]
    intro hb
    have hnone := findSome?_eq_none_iff.mp hf [b] (singleton_mem_whitespace hb)
    rw [ho] at hnone
    cases hnone

lemma trimStart_of_ascii (hs : ∀ b ∈ s, b < 128) (hf : s.length ≤ fuel) :
    trimStart fuel s = s.dropWhile isWhitespace := by
  induction fuel generalizing s with
  | zero =>
    obtain rfl := length_eq_zero_iff.mp (le_zero.mp hf)
    rfl
  | succ fuel ih =>
    cases s with
    | nil =>
      rfl
    | cons b s =>
      rw [forall_mem_cons] at hs
      have ho : (b :: s).dropPrefix? [b] = some s := dropPrefix?_eq_some.mpr rfl
      rw [trimStart, findSome?_whitespace ho, dropWhile_cons]
      · cases isWhitespace b with
        | true => exact ih hs.2 (le_of_succ_le_succ hf)
        | false => rfl
      -- what is dropped is the first character
      intro space hspa rest hr
      have heq := dropPrefix?_eq_some.mp hr
      have hne : space ≠ [] := by
        rintro rfl
        exact absurd hspa (by decide)
      have hh := congrArg head? heq
      rw [head?_append_of_ne_nil _ hne] at hh
      obtain ⟨hb, rfl⟩ := whitespace_ascii hspa (mem_of_head? hh.symm) hs.1
      exact ⟨hb, (List.cons.inj heq).2.symm⟩

lemma trimEnd_of_ascii (hs : ∀ b ∈ s, b < 128) (hf : s.length ≤ fuel) :
    trimEnd fuel s = s.rdropWhile isWhitespace := by
  induction fuel generalizing s with
  | zero =>
    obtain rfl := length_eq_zero_iff.mp (le_zero.mp hf)
    rfl
  | succ fuel ih =>
    cases s using reverseRecOn with
    | nil =>
      rfl
    | append_singleton s b =>
      rw [forall_mem_append, forall_mem_singleton] at hs
      have ho : (s ++ [b]).dropSuffix? [b] = some s :=
        dropSuffix?_eq_some_iff.mpr ⟨[b], rfl, by simp⟩
      rw [trimEnd, findSome?_whitespace ho, rdropWhile_concat]
      · cases isWhitespace b with
        | true => exact ih hs.1 (by simpa using hf)
        | false => rfl
      intro space hspa rest hr
      obtain ⟨tail, heq, ht⟩ := dropSuffix?_eq_some_iff.mp hr
      obtain rfl : tail = space := by simpa using ht
      have hne : tail ≠ [] := by
        rintro rfl
        exact absurd hspa (by decide)
      have hl := congrArg getLast? heq
      rw [getLast?_append_of_ne_nil _ hne, getLast?_concat] at hl
      obtain ⟨hb, rfl⟩ := whitespace_ascii hspa (mem_of_getLast? hl.symm) hs.2
      exact ⟨hb, (append_inj_left' heq rfl).symm⟩

lemma trimText_of_ascii (hs : ∀ b ∈ s, b < 128) : trimText s = trim isWhitespace s := by
  have hsta := trimStart_of_ascii hs (le_refl _)
  have hr : ∀ b ∈ s.dropWhile isWhitespace, b < 128 :=
    fun b hb => hs b ((dropWhile_sublist _).subset hb)
  simp only [trimText, hsta, trim]
  exact trimEnd_of_ascii hr (le_refl _)

def replacement : Bytes := [0xEF, 0xBF, 0xBD]

/-- Lossy decoding from a state, with the bytes of the unfinished character. A byte that does
not continue it ends the character with a replacement and starts a new one. -/
def lossyFrom : State → Bytes → Bytes → Bytes
  | .start, _, [] => []
  | .more .., _, [] => replacement
  | state, unfinished, b :: s =>
    match advance state b with
    | some .start => unfinished ++ [b] ++ lossyFrom .start [] s
    | some next => lossyFrom next (unfinished ++ [b]) s
    | none =>
      if unfinished.isEmpty then replacement ++ lossyFrom .start [] s
      else
        replacement ++ match lead b with
          | some .start => b :: lossyFrom .start [] s
          | some next => lossyFrom next [b] s
          | none => replacement ++ lossyFrom .start [] s

def lossy (s : Bytes) : Bytes := lossyFrom .start [] s

/-- The automaton expects no ASCII byte, and has read a non-ASCII byte if it is inside a
character. -/
def State.Pending : State → Bytes → Prop
  | .start, unfinished => unfinished = []
  | .more lo _ _, unfinished => 0x80 ≤ lo ∧ ∃ b rest, unfinished = b :: rest ∧ 0x80 ≤ b

lemma lead_of_ascii (h : b < 0x80) : lead b = some .start := by simp [lead, h]

lemma pending_lead (h : lead b = some (.more lo hi rest)) :
    State.Pending (.more lo hi rest) [b] := by
  have hb : 0x80 ≤ b := by
    by_cases hlt : b < 0x80
    · simp [lead_of_ascii hlt] at h
    · exact UInt8.not_lt.mp hlt
  refine ⟨?_, b, [], rfl, hb⟩
  unfold lead at h
  grind

lemma advance_more_of_ascii (hlo : 0x80 ≤ lo) (hb : b < 0x80) :
    advance (.more lo hi rest) b = none := by
  have hn : ¬lo ≤ b := UInt8.not_le.mpr (UInt8.lt_of_lt_of_le hb hlo)
  simp [advance, hn]

lemma pending_advance {next : State} (hp : State.Pending (.more lo hi rest) unfinished)
    (h : advance (.more lo hi rest) b = some next) (hn : next ≠ .start) :
    next.Pending (unfinished ++ [b]) := by
  obtain ⟨-, c, tail, rfl, hc⟩ := hp
  dsimp only [advance] at h
  split at h
  · cases h
    cases rest with
    | zero => exact absurd rfl hn
    | succ n => exact ⟨by decide, c, tail ++ [b], rfl, hc⟩
  · simp at h

lemma lossyFrom_more (hp : State.Pending (.more lo hi rest) unfinished)
    (b : UInt8) (s : Bytes) :
    lossyFrom (.more lo hi rest) unfinished (b :: s) =
      match advance (.more lo hi rest) b with
      | some .start => unfinished ++ [b] ++ lossy s
      | some next => lossyFrom next (unfinished ++ [b]) s
      | none => replacement ++ lossy (b :: s) := by
  obtain ⟨-, c, tail, rfl, -⟩ := hp
  rw [lossyFrom]
  cases ha : advance (.more lo hi rest) b with
  | some next => cases next <;> rfl
  | none =>
    simp only [isEmpty_cons, Bool.false_eq_true, if_false]
    rw [lossy, lossyFrom, advance]
    cases lead b with
    | some next => cases next <;> rfl
    | none => rfl

lemma lossy_cons (b : UInt8) (s : Bytes) : lossy (b :: s) = match lead b with
      | some .start => b :: lossy s
      | some next => lossyFrom next [b] s
      | none => replacement ++ lossy s := by
  rw [lossy, lossyFrom, advance]
  cases lead b with
  | some next => cases next <;> rfl
  | none => rfl

lemma lossy_of_ascii (hs : ∀ b ∈ s, b < 128) : lossy s = s := by
  induction s with
  | nil => rfl
  | cons b s ih =>
    rw [forall_mem_cons] at hs
    rw [lossy_cons, lead_of_ascii hs.1, ih hs.2]

lemma lossyFrom_append_ascii (hb : b < 0x80) (s t : Bytes) :
    (∀ state unfinished, state.Pending unfinished →
      lossyFrom state unfinished (s ++ b :: t) = lossyFrom state unfinished s ++ b :: lossy t) := by
  induction s with
  | nil =>
    intro state unfinished hp
    cases state with
    | start =>
      obtain rfl : unfinished = [] := hp
      have hste := lossy_cons b t
      rw [lead_of_ascii hb] at hste
      exact hste
    | more lo hi rest =>
      rw [nil_append, lossyFrom_more hp, advance_more_of_ascii hp.1 hb]
      rw [lossy_cons, lead_of_ascii hb]
      rfl
  | cons c s ih =>
    have hl : lossy (c :: s ++ b :: t) = lossy (c :: s) ++ b :: lossy t := by
      rw [cons_append, lossy_cons, lossy_cons]
      have hs : lossy (s ++ b :: t) = lossy s ++ b :: lossy t := ih .start [] rfl
      cases hlea : lead c with
      | some next =>
        cases next with
        | start =>
          rw [hs, cons_append]
        | more lo hi rest => exact ih _ _ (pending_lead hlea)
      | none =>
        rw [hs, append_assoc]
    intro state unfinished hp
    cases state with
    | start =>
      obtain rfl : unfinished = [] := hp
      exact hl
    | more lo hi rest =>
      rw [cons_append, lossyFrom_more hp, lossyFrom_more hp]
      cases ha : advance (.more lo hi rest) c with
      | some next =>
        cases next with
        | start =>
          have hs : lossy (s ++ b :: t) = lossy s ++ b :: lossy t := ih .start [] rfl
          rw [hs]
          simp
        | more lo' hi' rest' => exact ih _ _ (pending_advance hp ha (by simp))
      | none =>
        dsimp only
        rw [← cons_append, hl, append_assoc]

lemma lossy_append_ascii (hb : b < 0x80) (s t : Bytes) :
    lossy (s ++ b :: t) = lossy s ++ b :: lossy t :=
  lossyFrom_append_ascii hb s t .start [] rfl

lemma mem_of_mem_lossyFrom (hb : b < 0x80) (s : Bytes) :
    ∀ state unfinished, state.Pending unfinished → b ∈ lossyFrom state unfinished s →
      b ∈ unfinished ∨ b ∈ s := by
  have hr : b ∉ replacement := by
    simp only [replacement, mem_cons, not_mem_nil, or_false, not_or]
    refine ⟨?_, ?_, ?_⟩ <;> rintro rfl <;> exact absurd hb (by decide)
  induction s with
  | nil =>
    intro state unfinished hp hm
    cases state with
    | start => simp [lossyFrom] at hm
    | more lo hi rest => exact absurd hm hr
  | cons c s ih =>
    have hs : b ∈ lossy s → b ∈ s := by
      intro hm
      simpa using ih .start [] rfl hm
    have hlos : b ∈ lossy (c :: s) → b ∈ c :: s := by
      intro hm
      rw [lossy_cons] at hm
      cases hl : lead c with
      | none =>
        rw [hl] at hm
        rcases mem_append.mp hm with hm | hm
        · exact absurd hm hr
        · exact mem_cons_of_mem c (hs hm)
      | some next =>
        rw [hl] at hm
        cases next with
        | start =>
          rcases mem_cons.mp hm with rfl | hm
          · exact mem_cons_self
          · exact mem_cons_of_mem c (hs hm)
        | more lo hi rest => simpa using ih _ _ (pending_lead hl) hm
    intro state unfinished hp hm
    cases state with
    | start =>
      obtain rfl : unfinished = [] := hp
      exact inr (hlos hm)
    | more lo hi rest =>
      rw [lossyFrom_more hp] at hm
      cases ha : advance (.more lo hi rest) c with
      | none =>
        rw [ha] at hm
        rcases mem_append.mp hm with hm | hm
        · exact absurd hm hr
        · exact inr (hlos hm)
      | some next =>
        rw [ha] at hm
        cases next with
        | start =>
          simp only [mem_append, mem_singleton] at hm
          rcases hm with (hm | rfl) | hm
          · exact inl hm
          · exact inr mem_cons_self
          · exact inr (mem_cons_of_mem c (hs hm))
        | more lo' hi' rest' =>
          have hres := ih _ _ (pending_advance hp ha (by simp)) hm
          simpa [or_assoc] using hres

lemma mem_of_mem_lossy (hb : b < 0x80) (h : b ∈ lossy s) : b ∈ s := by
  simpa using mem_of_mem_lossyFrom hb s .start [] rfl h

lemma head_lossyFrom_more (s : Bytes) :
    ∀ lo hi rest unfinished, State.Pending (.more lo hi rest) unfinished →
      ∃ b t, lossyFrom (.more lo hi rest) unfinished s = b :: t ∧ 0x80 ≤ b := by
  induction s with
  | nil =>
    intro lo hi rest unfinished hp
    exact ⟨0xEF, [0xBF, 0xBD], rfl, by decide⟩
  | cons c s ih =>
    intro lo hi rest unfinished hp
    rw [lossyFrom_more hp]
    cases ha : advance (.more lo hi rest) c with
    | none => exact ⟨0xEF, _, rfl, by decide⟩
    | some next =>
      cases next with
      | start =>
        obtain ⟨-, b, tail, rfl, hb⟩ := hp
        exact ⟨b, _, rfl, hb⟩
      | more lo' hi' rest' => exact ih _ _ _ _ (pending_advance hp ha (by simp))

lemma head_lossy (hb : b < 0x80) (h : (lossy s).head? = some b) : s.head? = some b := by
  cases s with
  | nil => simp [lossy, lossyFrom] at h
  | cons c s =>
    rw [lossy_cons] at h
    cases hl : lead c with
    | none =>
      rw [hl] at h
      cases h
      exact absurd hb (by decide)
    | some next =>
      rw [hl] at h
      cases next with
      | start => simpa using h
      | more lo hi rest =>
        obtain ⟨d, t, heq, hd⟩ := head_lossyFrom_more s lo hi rest [c] (pending_lead hl)
        dsimp only at h
        rw [heq, head?_cons] at h
        cases h
        exact absurd hd (UInt8.not_le.mpr hb)

end Wire.Utf8
