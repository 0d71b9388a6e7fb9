import Mathlib.Data.List.Forall2

/-!
# Computations that can fail

An action returns the state it leaves behind also when it fails.
-/

namespace Wire

open List

variable {ε α β : Type}

lemma bind_eq_ok {x : Except ε α} {f : α → Except ε β} {b : β} :
    (x >>= f) = .ok b ↔ ∃ a, x = .ok a ∧ f a = .ok b := by
  cases x with
  | error e => simp [bind, Except.bind]
  | ok a => simp [bind, Except.bind]

lemma except_bind_eq_error {x : Except ε α} {f : α → Except ε β} {e : ε} :
    (x >>= f) = .error e ↔ x = .error e ∨ ∃ a, x = .ok a ∧ f a = .error e := by
  cases x with
  | error e' => simp [bind, Except.bind]
  | ok a => simp [bind, Except.bind]

def refuseIf {ε : Type} (refused : Bool) (e : ε) : Except ε Unit :=
  if refused then .error e else .ok ()

@[simp]
lemma refuseIf_eq_ok {ε : Type} {refused : Bool} {e : ε} {u : Unit} :
    refuseIf refused e = .ok u ↔ refused = false := by
  cases refused <;> simp [refuseIf]

def okOr {ε α : Type} (e : ε) : Option α → Except ε α
  | some a => .ok a
  | none => .error e

@[simp]
lemma okOr_eq_ok {ε α : Type} {e : ε} {o : Option α} {a : α} : okOr e o = .ok a ↔ o = some a := by
  cases o <;> simp [okOr]

@[simp]
lemma mapError_eq_ok {ε ε' α : Type} {f : ε → ε'} {x : Except ε α} {a : α} :
    x.mapError f = .ok a ↔ x = .ok a := by
  cases x <;> simp [Except.mapError]

variable {f : α → Except ε β}

lemma except_mapM_eq_ok {l : List α} {r : List β} :
    l.mapM f = .ok r ↔ List.Forall₂ (fun a b => f a = .ok b) l r := by
  induction l generalizing r with
  | nil => simp [pure, Except.pure, eq_comm, forall₂_nil_left_iff]
  | cons a l ih =>
    rw [mapM_cons, bind_eq_ok]
    simp only [bind_eq_ok, pure, Except.pure, Except.ok.injEq, ih]
    constructor
    · rintro ⟨b, hb, bs, hbs, rfl⟩
      exact List.Forall₂.cons hb hbs
    · intro h
      cases h with
      | cons hb hbs => exact ⟨_, hb, _, hbs, rfl⟩

lemma except_mapM_eq_map {g : α → β} {P : α → Prop}
    (hf : ∀ a b, f a = .ok b → P a ∧ b = g a) {l : List α} {r : List β} (h : l.mapM f = .ok r) :
    (∀ a ∈ l, P a) ∧ r = l.map g := by
  induction except_mapM_eq_ok.mp h with
  | nil => simp
  | cons hab hr ih =>
    obtain ⟨hP, rfl⟩ := hf _ _ hab
    obtain ⟨hall, rfl⟩ := ih (except_mapM_eq_ok.mpr hr)
    simpa [hP] using hall

lemma except_mapM_mem {l : List α} {r : List β}
    (h : l.mapM f = .ok r) {a : α} (ha : a ∈ l) : ∃ b, f a = .ok b := by
  induction except_mapM_eq_ok.mp h with
  | nil => simp at ha
  | cons hab hr ih =>
    rcases mem_cons.mp ha with rfl | ha
    · exact ⟨_, hab⟩
    · exact ih (except_mapM_eq_ok.mpr hr) ha

lemma except_mapM_map {ε α β γ : Type} {f : α → Except ε β} {g : γ → Except ε β} {k : α → γ}
    {l : List α} {r : List β} (h : l.mapM f = .ok r)
    (ha : ∀ a ∈ l, ∀ b, f a = .ok b → g (k a) = .ok b) : (l.map k).mapM g = .ok r := by
  induction except_mapM_eq_ok.mp h with
  | nil => rfl
  | cons hab hr ih =>
    simp only [mem_cons, forall_eq_or_imp] at ha
    have ht := ih (except_mapM_eq_ok.mpr hr) ha.2
    rw [except_mapM_eq_ok] at ht ⊢
    exact .cons (ha.1 _ hab) ht

variable {f : β → α → Except ε β}

lemma except_foldlM_preserves {P : β → Prop}
    (hf : ∀ b a b', P b → f b a = .ok b' → P b') {l : List α} {b b' : β}
    (h : l.foldlM f b = .ok b') (hP : P b) : P b' := by
  induction l generalizing b with
  | nil =>
    rwa [← Except.ok.inj h]
  | cons a l ih =>
    rw [foldlM_cons, bind_eq_ok] at h
    obtain ⟨next, hn, h⟩ := h
    exact ih h (hf b a next hP hn)

/-- A part of the state that each step extends by what it reads holds all that has been read. -/
lemma except_foldlM_observe {ε α β γ δ : Type} {f : β → α → Except ε β} {g : β → γ}
    {get : α → Option δ} {step : γ → δ → γ}
    (hf : ∀ b a b', f b a = .ok b' → g b' = (get a).elim (g b) (step (g b))) {l : List α}
    {b b' : β} (h : l.foldlM f b = .ok b') : g b' = (l.filterMap get).foldl step (g b) := by
  induction l generalizing b with
  | nil => rw [← Except.ok.inj h, filterMap_nil, foldl_nil]
  | cons a l ih =>
    rw [foldlM_cons, bind_eq_ok] at h
    obtain ⟨next, hn, h⟩ := h
    rw [ih h, hf b a next hn, filterMap_cons]
    cases get a with
    | none => rfl
    | some d => rfl

lemma except_foldlM_invariant {P : β → Prop}
    (hf : ∀ b a b', f b a = .ok b' → P b') {l : List α} {b b' : β}
    (h : l.foldlM f b = .ok b') (hP : P b ∨ l ≠ []) : P b' := by
  cases l with
  | nil =>
    cases h
    simpa using hP
  | cons a l =>
    obtain ⟨next, hn, h⟩ := bind_eq_ok.mp h
    exact except_foldlM_preserves (fun b a b' _ => hf b a b') h (hf b a next hn)

lemma except_foldlM_eq_error {l : List α} {b : β} {e : ε} :
    l.foldlM f b = .error e ↔
      ∃ front a rest b', l = front ++ a :: rest ∧ front.foldlM f b = .ok b' ∧
        f b' a = .error e := by
  induction l generalizing b with
  | nil => simp [pure, Except.pure]
  | cons a l ih =>
    simp only [foldlM_cons, except_bind_eq_error, ih]
    constructor
    · rintro (hfai | ⟨next, hs, front, a', rest, b', rfl, hf, hfai⟩)
      · exact ⟨[], a, l, b, rfl, rfl, hfai⟩
      · exact ⟨a :: front, a', rest, b', rfl, bind_eq_ok.mpr ⟨next, hs, hf⟩, hfai⟩
    rintro ⟨front, a', rest, b', hl, hf, hfai⟩
    cases front with
    | nil =>
      cases hl
      cases hf
      exact .inl hfai
    | cons a'' front =>
      cases hl
      obtain ⟨next, hs, hf⟩ := bind_eq_ok.mp hf
      exact .inr ⟨next, hs, front, a', rest, b', rfl, hf, hfai⟩

def Action (σ ε α : Type) : Type := σ → Except ε α × σ

namespace Action

variable {σ ε α β : Type}

instance : Monad (Action σ ε) where
  pure a := fun s => (.ok a, s)
  bind x f := fun s =>
    match x s with
    | (.ok a, t) => f a t
    | (.error e, t) => (.error e, t)

def throw (e : ε) : Action σ ε α := fun s => (.error e, s)

variable (r : Except ε α)

def lift : Action σ ε α := fun s => (r, s)

def get : Action σ ε σ := fun s => (.ok s, s)

def modify (f : σ → σ) : Action σ ε Unit := fun s => (.ok (), f s)

@[simp] lemma lift_apply (s : σ) : lift r s = (r, s) := rfl

@[simp] lemma modify_apply (f : σ → σ) (s : σ) :
    (modify f : Action σ ε Unit) s = (.ok (), f s) := rfl

lemma bind_apply (x : Action σ ε α) (f : α → Action σ ε β) (s : σ) : (x >>= f) s = match x s with
      | (.ok a, t) => f a t
      | (.error e, t) => (.error e, t) := rfl

@[simp] lemma get_bind_apply (f : σ → Action σ ε β) (s : σ) : (get >>= f) s = f s s := rfl

variable {a : α} {x : Action σ ε α} {s : σ}

lemma lift_bind_of_ok {r : Except ε α} (h : r = .ok a) (f : α → Action σ ε β) (s : σ) :
    (lift r >>= f) s = f a s := by rw [bind_apply, lift_apply, h]

lemma bind_of_ok {t : σ} (h : x s = (.ok a, t)) (f : α → Action σ ε β) : (x >>= f) s = f a t := by
  rw [bind_apply, h]

lemma lift_bind_cases (f : α → Action σ ε β) (s : σ) :
    (∃ e, (lift r >>= f) s = (.error e, s)) ∨ ∃ a, r = .ok a ∧ (lift r >>= f) s = f a s := by
  cases r with
  | error e => exact Or.inl ⟨e, rfl⟩
  | ok a => exact Or.inr ⟨a, rfl, rfl⟩

def Atomic (x : Action σ ε α) (s : σ) : Prop := ∀ e t, x s = (.error e, t) → t = s

lemma atomic_of_error {e : ε} (h : x s = (.error e, s)) : Atomic x s := by
  intro e' t heq
  rw [h, Prod.mk.injEq] at heq
  exact heq.2.symm

lemma atomic_of_ok {t : σ} (h : x s = (.ok a, t)) : Atomic x s := by
  intro e' t' heq
  rw [h, Prod.mk.injEq] at heq
  simp at heq

end Action

end Wire
