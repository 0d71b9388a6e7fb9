import Aioduct.Wire.Bytes

/-!
# Cursor parsers

A cursor parser reads a string from the left and returns a value and the rest, or fails. The fuel of
a loop is the length of the input: every round that asks for another one has read something.
-/

namespace Wire

open List Except

variable {u s' : Bytes}

/-- A parser with errors in `ε`. -/
def Parser (ε α : Type) : Type := Bytes → Except ε (α × Bytes)

inductive Round (σ α : Type) where
  | again (state : σ)
  | done (result : α)

/-- The state of a round that goes on has `J`, the result of one that is done has `P`. -/
def Round.Holds {σ α : Type} (J : σ → Prop) (P : α → Prop) : Round σ α → Prop
  | .again state => J state
  | .done result => P result

namespace Parser

variable {ε α β σ : Type}

instance : Monad (Parser ε) where
  pure a := fun s => .ok (a, s)
  bind p f := fun s =>
    match p s with
    | .ok (a, t) => f a t
    | .error e => .error e

def fail (e : ε) : Parser ε α := fun _ => .error e

def lift (r : Except ε α) : Parser ε α := fun s => r.map (·, s)

def peek : Parser ε (Option UInt8) := fun s => .ok (s.head?, s)

def consume : Parser ε (Option UInt8) := fun s => .ok (s.head?, s.tail)

def consumeIf (b : UInt8) : Parser ε Bool := fun s =>
  if s.head? = some b then .ok (true, s.tail) else .ok (false, s)

/-- `while peek().is_some_and(p) { consume() }`, returning the slice that was passed over. -/
def takeWhile (p : UInt8 → Bool) : Parser ε Bytes := fun s => .ok (s.takeWhile p, s.dropWhile p)

def isEmpty : Parser ε Bool := fun s => .ok (s.isEmpty, s)

def IsScanned (start p : UInt8 → Bool) (s : Bytes) : Prop :=
  ∃ b rest, s = b :: rest ∧ start b = true ∧ ∀ c ∈ rest, p c = true

instance (start p : UInt8 → Bool) (s : Bytes) : Decidable (IsScanned start p s) :=
  decidable_of_iff (s.head?.any start = true ∧ s.tail.all p = true) (by
    unfold IsScanned
    cases s <;> simp)

def scan (e : ε) (start p : UInt8 → Bool) : Parser ε Bytes := do
  match ← peek with
  | some b =>
    if start b then do
      let _ ← consume
      let rest ← takeWhile p
      pure (b :: rest)
    else fail e
  | none => fail e

def loopFuel (stuck : ε) (step : σ → Parser ε (Round σ α)) : Nat → σ → Parser ε α
  | 0, _ => fail stuck
  | fuel + 1, state => do
    match ← step state with
    | .again next => loopFuel stuck step fuel next
    | .done a => pure a

def loop (stuck : ε) (step : σ → Parser ε (Round σ α)) (state : σ) : Parser ε α := fun s =>
  loopFuel stuck step (s.length + 1) state s

@[simp] lemma pure_apply (a : α) (s : Bytes) : (pure a : Parser ε α) s = .ok (a, s) := rfl

@[simp] lemma fail_apply (e : ε) (s : Bytes) : (fail e : Parser ε α) s = .error e := rfl

lemma bind_apply (p : Parser ε α) (f : α → Parser ε β) (s : Bytes) : (p >>= f) s = match p s with
      | .ok (a, t) => f a t
      | .error e => .error e := rfl

variable {s t : Bytes} {p q : Parser ε α} {a : α} {f : α → Parser ε β} {b : UInt8}
  {step : σ → Parser ε (Round σ α)} {stuck : ε} {state : σ}

lemma bind_of_ok (h : p s = .ok (a, t)) (f : α → Parser ε β) : (p >>= f) s = f a t := by
  rw [bind_apply, h]

lemma bind_eq_ok {b : β} :
    (p >>= f) s = .ok (b, u) ↔ ∃ a t, p s = .ok (a, t) ∧ f a t = .ok (b, u) := by
  rw [bind_apply]
  cases hp : p s with
  | error e => simp
  | ok r =>
    obtain ⟨a, t⟩ := r
    simp

@[simp] lemma peek_bind_apply (f : Option UInt8 → Parser ε β) (s : Bytes) :
    (peek >>= f) s = f s.head? s := rfl

@[simp] lemma consume_bind_cons (f : Option UInt8 → Parser ε β) (b : UInt8) (s : Bytes) :
    (consume >>= f) (b :: s) = f (some b) s := rfl

@[simp] lemma takeWhile_bind_apply (p : UInt8 → Bool) (f : Bytes → Parser ε β) (s : Bytes) :
    (takeWhile p >>= f) s = f (s.takeWhile p) (s.dropWhile p) := rfl

lemma consumeIf_bind_apply (b : UInt8) (f : Bool → Parser ε β) (s : Bytes) :
    (consumeIf b >>= f) s = if s.head? = some b then f true s.tail else f false s := by
  rw [bind_apply, consumeIf]
  by_cases h : s.head? = some b
  · rw [if_pos h, if_pos h]
  · rw [if_neg h, if_neg h]

lemma consumeIf_bind_stops (h : Stops (· == b) s) (f : Bool → Parser ε β) :
    (consumeIf b >>= f) s = f false s := by
  rw [consumeIf_bind_apply, if_neg]
  intro hb
  simpa using h b hb

lemma consumeIf_eq_ok {r : Bool} (h : (consumeIf b : Parser ε Bool) s = .ok (r, t)) :
    s = (if r then [b] else []) ++ t := by
  unfold consumeIf at h
  by_cases hs : s.head? = some b
  · rw [if_pos hs] at h
    cases s with
    | nil => simp at hs
    | cons c s => simp_all
  · rw [if_neg hs] at h
    obtain ⟨rfl, rfl⟩ := h
    simp

lemma scan_eq_ok {e : ε} {start p : UInt8 → Bool} {a : Bytes} (h : scan e start p s = .ok (a, t)) :
    IsScanned start p a ∧ s = a ++ t := by
  unfold scan at h
  cases s with
  | nil => simp at h
  | cons b s =>
    simp only [peek_bind_apply, head?_cons] at h
    by_cases hb : start b
    · simp only [hb, if_true, consume_bind_cons, takeWhile_bind_apply, pure_apply,
        ok.injEq, Prod.mk.injEq] at h
      obtain ⟨rfl, rfl⟩ := h
      refine ⟨⟨b, s.takeWhile p, rfl, hb, fun c hc => mem_takeWhile_imp hc⟩, ?_⟩
      simp
    · simp [hb] at h

lemma loopFuel_mono {fuel more : Nat} {state : σ} {r : α × Bytes}
    (h : loopFuel stuck step fuel state s = .ok r) (hle : fuel ≤ more) :
    loopFuel stuck step more state s = .ok r := by
  induction fuel generalizing more state s with
  | zero => cases h
  | succ fuel ih =>
    obtain ⟨more, rfl⟩ : ∃ k, more = k + 1 := ⟨more - 1, by omega⟩
    unfold loopFuel at h ⊢
    obtain ⟨round, rest, hr, h⟩ := bind_eq_ok.mp h
    rw [bind_of_ok hr]
    cases round with
    | done a => exact h
    | again next => exact ih h (Nat.le_of_succ_le_succ hle)

/-- `p` reads exactly `s` in front of `t`, with the value `a`. -/
def Reads (p : Parser ε α) (s : Bytes) (a : α) (t : Bytes) : Prop := p (s ++ t) = .ok (a, t)

lemma reads_pure (a : α) (t : Bytes) : Reads (pure a : Parser ε α) [] a t := rfl

lemma Reads.bind {b : β} (hp : Reads p s a (s' ++ t)) (hf : Reads (f a) s' b t) :
    Reads (p >>= f) (s ++ s') b t := by
  rw [Reads, append_assoc, bind_of_ok hp]
  exact hf

lemma Reads.bind_nil {b : β} (hp : Reads p [] a (s ++ t)) (hf : Reads (f a) s b t) :
    Reads (p >>= f) s b t :=
  .bind (s := []) hp hf

lemma Reads.bind_last {b : β} (hp : Reads p s a t) (hf : Reads (f a) [] b t) :
    Reads (p >>= f) s b t := by
  rw [Reads, bind_of_ok hp]
  exact hf

lemma Reads.map (hp : Reads p s a t) (f : α → β) : Reads (f <$> p) s (f a) t := by
  change (p >>= fun a => pure (f a)) (s ++ t) = _
  rw [bind_of_ok hp, pure_apply]

lemma reads_consumeIf (b : UInt8) (t : Bytes) :
    Reads (consumeIf b : Parser ε Bool) [b] true t := by simp [Reads, consumeIf]

lemma reads_consumeIf_false (h : Stops (· == b) t) :
    Reads (consumeIf b : Parser ε Bool) [] false t := by
  rw [Reads, nil_append, consumeIf, if_neg]
  intro hb
  simpa using h b hb

lemma reads_takeWhile {p : UInt8 → Bool} (hs : ∀ b ∈ s, p b) (ht : Stops p t) :
    Reads (takeWhile p : Parser ε Bytes) s s t := by
  rw [Reads, takeWhile, takeWhile_append_of_stops hs ht, dropWhile_append_of_stops hs ht]

lemma reads_peek_bind {f : Option UInt8 → Parser ε β} {b : β} :
    Reads (peek >>= f) s b t ↔ Reads (f (s ++ t).head?) s b t := Iff.rfl

lemma reads_consume_bind {f : Option UInt8 → Parser ε β} {c : UInt8} {b : β} :
    Reads (consume >>= f) (c :: s) b t ↔ Reads (f (some c)) s b t := Iff.rfl

lemma reads_scan {e : ε} {start p : UInt8 → Bool} (hs : IsScanned start p s) (ht : Stops p t) :
    Reads (scan e start p) s s t := by
  obtain ⟨b, rest, rfl, hb, hr⟩ := hs
  unfold scan
  rw [reads_peek_bind]
  simp only [cons_append, head?_cons, hb, if_true]
  exact reads_consume_bind.mpr (.bind_last (reads_takeWhile hr ht) (reads_pure _ _))

lemma reads_lift {r : Except ε α} (h : r = .ok a) (t : Bytes) : Reads (lift r) [] a t := by
  rw [Reads, lift, h]
  rfl

lemma reads_isEmpty_bind {f : Bool → Parser ε β} {b : β} :
    Reads (isEmpty >>= f) s b t ↔ Reads (f (s ++ t).isEmpty) s b t := Iff.rfl

lemma reads_consumeIf_ite :
    Reads (consumeIf b >>= fun found => if found then p else q) (b :: s) a t ↔ Reads p s a t := by
  simp [Reads, consumeIf_bind_apply]

lemma reads_consumeIf_ite_of_stops (h : Stops (· == b) (s ++ t)) (hq : Reads q s a t) :
    Reads (consumeIf b >>= fun found => if found then p else q) s a t := by
  rw [Reads, consumeIf_bind_stops h]
  exact hq

/-- A round that has read something leaves enough fuel for the rounds after it. -/
lemma Reads.loop_again {next : σ} (hs : Reads (step state) s (.again next) (s' ++ t))
    (hne : s ≠ []) (hl : Reads (loop stuck step next) s' a t) :
    Reads (loop stuck step state) (s ++ s') a t := by
  have hpos := length_pos_of_ne_nil hne
  rw [Reads, append_assoc, loop, loopFuel, bind_of_ok hs]
  refine loopFuel_mono hl ?_
  simp only [length_append]
  omega

lemma Reads.loop_done (hs : Reads (step state) s (.done a) t) :
    Reads (loop stuck step state) s a t := by
  rw [Reads, loop, loopFuel, bind_of_ok hs]
  rfl

/-- A loop whose rounds each read one element of a sequence, and the last one what ends it. -/
lemma Reads.loop_flatMap {δ : Type} {print : δ → Bytes} {J : σ → List δ → Prop} {ds : List δ}
    (hJ : J state ds) (hd : ∀ state, J state [] → Reads (step state) s (.done a) t)
    (ha : ∀ state d ds, J state (d :: ds) → print d ≠ [] ∧ ∃ next, J next ds ∧
      Reads (step state) (print d) (.again next) (ds.flatMap print ++ s ++ t)) :
    Reads (loop stuck step state) (ds.flatMap print ++ s) a t := by
  induction ds generalizing state with
  | nil => exact .loop_done (hd state hJ)
  | cons d ds ih =>
    obtain ⟨hne, next, hn, hr⟩ := ha state d ds hJ
    rw [flatMap_cons, append_assoc]
    exact .loop_again hr hne (ih hn)

/-- If `p` succeeds on an input with `I`, its value has `Q` and the rest still has `I`. -/
def Ensures (I : Bytes → Prop) (p : Parser ε α) (Q : α → Prop) : Prop :=
  ∀ s a t, I s → p s = .ok (a, t) → Q a ∧ I t

section Ensures

variable {I : Bytes → Prop} {p : Parser ε α} {P : α → Prop} {Q : β → Prop}

lemma Ensures.pure (h : P a) : Ensures I (pure a : Parser ε α) P := by
  intro s b t hs heq
  simp only [pure_apply, ok.injEq, Prod.mk.injEq] at heq
  exact ⟨heq.1 ▸ h, heq.2 ▸ hs⟩

lemma Ensures.fail (e : ε) : Ensures I (fail e : Parser ε α) P := by
  intro s a t _ h
  simp at h

lemma Ensures.bind (hp : Ensures I p P) (hf : ∀ a, P a → Ensures I (f a) Q) :
    Ensures I (p >>= f) Q := by
  intro s b u hs h
  obtain ⟨a, t, ha, hb⟩ := bind_eq_ok.mp h
  obtain ⟨hP, ht⟩ := hp s a t hs ha
  exact hf a hP t b u ht hb

lemma Ensures.ite {c : Prop} [Decidable c] (hp : c → Ensures I p P) (hq : ¬c → Ensures I q P) :
    Ensures I (if c then p else q) P := by
  by_cases h : c
  · simpa [h] using hp h
  · simpa [h] using hq h

lemma Ensures.map (hp : Ensures I p P) (f : α → β) (h : ∀ a, P a → Q (f a)) :
    Ensures I (f <$> p) Q :=
  .bind hp fun a ha => .pure (h a ha)

lemma ensures_peek : Ensures I (peek : Parser ε (Option UInt8)) fun _ => True := by
  intro s a t hs h
  simp only [peek, ok.injEq, Prod.mk.injEq] at h
  exact ⟨trivial, h.2 ▸ hs⟩

lemma ensures_isEmpty : Ensures I (isEmpty : Parser ε Bool) fun _ => True := by
  intro s a t hs h
  simp only [isEmpty, ok.injEq, Prod.mk.injEq] at h
  exact ⟨trivial, h.2 ▸ hs⟩

/-- `I` survives reading a byte, and says `H` of that byte. -/
def Hereditary (I : Bytes → Prop) (H : UInt8 → Prop) : Prop := ∀ b s, I (b :: s) → H b ∧ I s

variable {H : UInt8 → Prop}

lemma ensures_consume (hI : Hereditary I H) :
    Ensures I (consume : Parser ε (Option UInt8)) fun o => ∀ b ∈ o, H b := by
  intro s a t hs h
  obtain ⟨rfl, rfl⟩ := h
  cases s with
  | nil => exact ⟨by simp, hs⟩
  | cons b s => exact ⟨by simpa using (hI b s hs).1, (hI b s hs).2⟩

lemma ensures_consumeIf (hI : Hereditary I H) (b : UInt8) :
    Ensures I (consumeIf b : Parser ε Bool) fun _ => True := by
  intro s a t hs h
  refine ⟨trivial, ?_⟩
  cases s with
  | nil => simp_all [consumeIf]
  | cons c s =>
    by_cases hc : c = b
    · simp only [consumeIf, hc, head?_cons, if_true, ok.injEq, Prod.mk.injEq] at h
      exact h.2 ▸ (hI c s hs).2
    · simp only [consumeIf, head?_cons, Option.some.injEq, hc, if_false, ok.injEq,
        Prod.mk.injEq] at h
      exact h.2 ▸ hs

lemma ensures_takeWhile (hI : Hereditary I H) (q : UInt8 → Bool) :
    Ensures I (takeWhile q : Parser ε Bytes) fun s => ∀ b ∈ s, q b := by
  intro s a t hs h
  obtain ⟨rfl, rfl⟩ := h
  refine ⟨fun b hb => mem_takeWhile_imp hb, ?_⟩
  induction s with
  | nil => exact hs
  | cons b s ih =>
    by_cases hb : q b
    · simpa [hb] using ih (hI b s hs).2
    · simpa [hb] using hs

lemma Ensures.loop {J : σ → Prop}
    (hste : ∀ state, J state → Ensures I (step state) (Round.Holds J P)) (hJ : J state) :
    Ensures I (loop stuck step state) P := by
  intro s a t hs h
  unfold Parser.loop at h
  generalize s.length + 1 = fuel at h
  induction fuel generalizing state s with
  | zero => cases h
  | succ fuel ih =>
    obtain ⟨round, rest, hrou, h⟩ := bind_eq_ok.mp h
    obtain ⟨hh, hr⟩ := hste state hJ s round rest hs hrou
    cases round with
    | done result =>
      cases h
      exact ⟨hh, hr⟩
    | again next => exact ih hh rest hr h

end Ensures

end Parser

end Wire
