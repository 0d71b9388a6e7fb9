import Mathlib.Data.List.Nodup
import Mathlib.Data.List.Induction

/-!
# Lists of keyed records

A list that holds at most one record of a key.
-/

namespace Wire.Keyed

open List

variable {α κ : Type} [DecidableEq κ]

/-- Put a record in the place of the one with its key, or at the end. -/
def upsert (key : α → κ) : List α → α → List α
  | [], a => [a]
  | b :: l, a => if key b = key a then a :: l else b :: upsert key l a

def apply (key : α → κ) (deletes : α → Bool) (l : List α) (a : α) : List α :=
  if deletes a then l.filter (fun b => key b ≠ key a) else upsert key l a

def latest (key : α → κ) (history : List α) (k : κ) : Option α :=
  history.reverse.find? (fun a => key a = k)

variable {key : α → κ} {deletes : α → Bool}

@[simp] lemma latest_nil (k : κ) : latest key [] k = none := rfl

lemma latest_concat_self (history : List α) (a : α) :
    latest key (history ++ [a]) (key a) = some a := by simp [latest]

variable {a : α} {k : κ} {l : List α}

lemma latest_concat_of_ne (history : List α) (h : key a ≠ k) :
    latest key (history ++ [a]) k = latest key history k := by simp [latest, h]

lemma mem_of_latest {history : List α} (h : latest key history k = some a) :
    a ∈ history := mem_reverse.mp (mem_of_find?_eq_some h)

lemma latest_filter (p : κ → Bool) (history : List α) (hk : p k) :
    latest key (history.filter fun a => p (key a)) k = latest key history k := by
  induction history using reverseRecOn with
  | nil => rfl
  | append_singleton history a ih =>
    by_cases ha : key a = k
    · subst ha
      rw [filter_append, filter_cons, if_pos hk, filter_nil, latest_concat_self, latest_concat_self]
    rw [filter_append, latest_concat_of_ne history ha, ← ih]
    by_cases hp : p (key a)
    · rw [filter_cons, if_pos hp, filter_nil, latest_concat_of_ne _ ha]
    · rw [filter_cons, if_neg hp, filter_nil, append_nil]

lemma latest_map {β : Type} (f : β → α) (history : List β) (k : κ) :
    latest key (history.map f) k = (latest (key ∘ f) history k).map f := by
  simp only [latest, ← map_reverse, find?_map]
  rfl

lemma of_mem_upsert {b : α} (h : b ∈ upsert key l a) : b = a ∨ b ∈ l := by
  induction l with
  | nil => exact .inl (mem_singleton.mp h)
  | cons c l ih =>
    rw [upsert] at h
    split at h
    · rcases mem_cons.mp h with rfl | h
      · exact .inl rfl
      · exact .inr (mem_cons_of_mem _ h)
    · rcases mem_cons.mp h with rfl | h
      · exact .inr mem_cons_self
      · exact (ih h).imp_right (mem_cons_of_mem _)

/-- The record that was put in is the first of some kind exactly if the one before it was of its
key. -/
lemma find?_upsert {p : α → Bool} (ha : p a)
    (hp : ∀ b ∈ l, key b = key a → p b) :
    (upsert key l a).find? p = some a ↔ ∀ b, l.find? p = some b → key b = key a := by
  induction l with
  | nil => simp [upsert, ha]
  | cons c l ih =>
    by_cases hc : key c = key a
    · simp [upsert, hc, ha, hp c mem_cons_self hc]
    rw [upsert, if_neg hc]
    cases hpc : p c with
    | true =>
      have hne : c ≠ a := fun h => hc (h ▸ rfl)
      simp [hpc, hne, hc]
    | false => simpa [hpc] using ih fun b hb => hp b (mem_cons_of_mem c hb)

lemma mem_upsert (hl : (l.map key).Nodup) {b : α} :
    b ∈ upsert key l a ↔ b = a ∨ (b ∈ l ∧ key b ≠ key a) := by
  induction l with
  | nil => simp [upsert]
  | cons c l ih =>
    rw [map_cons, nodup_cons] at hl
    by_cases hc : key c = key a
    · have ho : ∀ b ∈ l, key b ≠ key a := by
        intro b hb heq
        exact hl.1 (hc ▸ heq ▸ mem_map_of_mem hb)
      simp only [upsert, if_pos hc, mem_cons]
      constructor
      · rintro (rfl | hb)
        · exact .inl rfl
        · exact .inr ⟨.inr hb, ho b hb⟩
      rintro (rfl | ⟨rfl | hb, hne⟩)
      · exact .inl rfl
      · exact absurd hc hne
      · exact .inr hb
    simp only [upsert, if_neg hc, mem_cons, ih hl.2]
    constructor
    · rintro (rfl | rfl | ⟨hb, hne⟩)
      · exact .inr ⟨.inl rfl, hc⟩
      · exact .inl rfl
      · exact .inr ⟨.inr hb, hne⟩
    rintro (rfl | ⟨rfl | hb, hne⟩)
    · exact .inr (.inl rfl)
    · exact .inl rfl
    · exact .inr (.inr ⟨hb, hne⟩)

lemma map_key_upsert (l : List α) (a : α) :
    (upsert key l a).map key =
      if key a ∈ l.map key then l.map key else l.map key ++ [key a] := by
  induction l with
  | nil => simp [upsert]
  | cons c l ih =>
    by_cases hc : key c = key a
    · simp [upsert, hc]
    · have hc' : ¬key a = key c := Ne.symm hc
      simp only [upsert, if_neg hc, map_cons, ih, mem_cons, hc', false_or]
      split <;> simp

lemma nodup_upsert (hl : (l.map key).Nodup) (a : α) : ((upsert key l a).map key).Nodup := by
  rw [map_key_upsert]
  split
  · exact hl
  rename_i ho
  rw [nodup_append]
  refine ⟨hl, nodup_singleton _, fun k hk k' hk' heq => ?_⟩
  rw [mem_singleton] at hk'
  exact ho (hk' ▸ heq ▸ hk)

lemma nodup_apply (hl : (l.map key).Nodup) (a : α) : ((apply key deletes l a).map key).Nodup := by
  unfold apply
  split
  · exact hl.sublist (filter_sublist.map key)
  · exact nodup_upsert hl a

lemma nodup_foldl_apply (history : List α) :
    ((history.foldl (apply key deletes) []).map key).Nodup := by
  induction history using reverseRecOn with
  | nil => exact nodup_nil
  | append_singleton history a ih =>
    rw [foldl_append]
    exact nodup_apply ih a

/-- The list holds the latest records that are no deletions. -/
theorem mem_foldl_apply (history : List α) (b : α) :
    b ∈ history.foldl (apply key deletes) [] ↔
      latest key history (key b) = some b ∧ deletes b = false := by
  induction history using reverseRecOn with
  | nil => simp
  | append_singleton history a ih =>
    have hnodup : ((history.foldl (apply key deletes) []).map key).Nodup := nodup_foldl_apply history
    rw [foldl_append, foldl_cons, foldl_nil]
    by_cases hk : key b = key a
    · have hl : latest key (history ++ [a]) (key b) = some a := by
        rw [hk, latest_concat_self]
      rw [hl, apply]
      split
      next hd =>
        simp only [mem_filter, hk, ne_eq, not_true_eq_false, decide_false, Bool.false_eq_true,
          and_false, false_iff, Option.some.injEq, not_and]
        rintro rfl
        simp [hd]
      rename_i hd
      rw [mem_upsert hnodup]
      simp only [hk, ne_eq, not_true_eq_false, and_false, or_false, Option.some.injEq]
      constructor
      · rintro rfl
        exact ⟨rfl, by simpa using hd⟩
      · rintro ⟨rfl, -⟩
        rfl
    · have hne : key a ≠ key b := Ne.symm hk
      rw [latest_concat_of_ne history hne, ← ih, apply]
      split
      · simp [hk]
      rw [mem_upsert hnodup]
      constructor
      · rintro (rfl | ⟨hb, -⟩)
        · exact absurd rfl hk
        · exact hb
      · intro hb
        exact .inr ⟨hb, hk⟩

end Wire.Keyed
