import Mathlib.Data.FinEnum

/-!
# Multimaps

Lines of a key and a value, of which only the order of the values of one key carries meaning.
-/

namespace Wire

open List

structure MultiMap (κ ν : Type) where
  lines : List (κ × ν) := []
  deriving DecidableEq, Repr

namespace MultiMap

variable {κ ν : Type} [DecidableEq κ] (m : MultiMap κ ν) (k : κ)

def getAll : List ν :=
  (m.lines.filter (·.1 = k)).map (·.2)

def get : Option ν := (m.getAll k).head?

def containsKey : Bool := !(m.getAll k).isEmpty

def remove : MultiMap κ ν := ⟨m.lines.filter (·.1 ≠ k)⟩

def append (v : ν) : MultiMap κ ν := ⟨m.lines ++ [(k, v)]⟩

def insert (v : ν) : MultiMap κ ν := (m.remove k).append k v

def Equiv (m m' : MultiMap κ ν) : Prop := ∀ k, m.getAll k = m'.getAll k

def AgreeOff (keys : List κ) (m m' : MultiMap κ ν) : Prop := ∀ k ∉ keys, m'.getAll k = m.getAll k

@[simp] lemma getAll_empty : (⟨[]⟩ : MultiMap κ ν).getAll k = [] := rfl

@[simp] lemma getAll_append_self (v : ν) :
    (m.append k v).getAll k = m.getAll k ++ [v] := by simp [getAll, append]

variable {k k' : κ} {m : MultiMap κ ν} {keys : List κ}

@[simp] lemma getAll_append_of_ne (h : k' ≠ k) (m : MultiMap κ ν) (v : ν) :
    (m.append k v).getAll k' = m.getAll k' := by simp [getAll, append, Ne.symm h]

@[simp] lemma getAll_remove_self (m : MultiMap κ ν) (k : κ) : (m.remove k).getAll k = [] := by
  simp [getAll, remove, filter_filter]

@[simp] lemma getAll_remove_of_ne (h : k' ≠ k) (m : MultiMap κ ν) :
    (m.remove k).getAll k' = m.getAll k' := by
  have hf : (m.lines.filter (·.1 ≠ k)).filter (·.1 = k') = m.lines.filter (·.1 = k') := by
    rw [filter_filter]
    apply filter_congr
    intro line _
    by_cases hl : line.1 = k'
    · simp [hl, h]
    · simp [hl]
  simp only [getAll, remove, hf]

@[simp] lemma getAll_insert_self (m : MultiMap κ ν) (k : κ) (v : ν) :
    (m.insert k v).getAll k = [v] := by simp [insert]

@[simp] lemma getAll_insert_of_ne (h : k' ≠ k) (m : MultiMap κ ν) (v : ν) :
    (m.insert k v).getAll k' = m.getAll k' := by simp [insert, h]

lemma getAll_foldl_remove (keys : List κ) (m : MultiMap κ ν) (k : κ) :
    (keys.foldl remove m).getAll k = if k ∈ keys then [] else m.getAll k := by
  induction keys generalizing m with
  | nil => simp
  | cons key keys ih =>
    rw [foldl_cons, ih]
    by_cases hk : k = key
    · simp [hk]
    · simp [hk]

lemma getAll_foldl_append_self (m : MultiMap κ ν) (k : κ) (vs : List ν) :
    (vs.foldl (fun m v => m.append k v) m).getAll k = m.getAll k ++ vs := by
  induction vs generalizing m with
  | nil => simp
  | cons v vs ih => simp [ih]

lemma getAll_foldl_append_of_ne (h : k' ≠ k) (m : MultiMap κ ν) (vs : List ν) :
    (vs.foldl (fun m v => m.append k v) m).getAll k' = m.getAll k' := by
  induction vs generalizing m with
  | nil => rfl
  | cons v vs ih => simp [ih, h]

lemma containsKey_eq_false : m.containsKey k = false ↔ m.getAll k = [] := by simp [containsKey]

lemma containsKey_congr {m' : MultiMap κ ν} (h : m.getAll k = m'.getAll k) :
    m.containsKey k = m'.containsKey k := by simp [containsKey, h]

lemma insert_insert_idem (h : k ≠ k') (m : MultiMap κ ν) (v v' : ν) :
    (((m.insert k v).insert k' v').insert k v).insert k' v' = (m.insert k v).insert k' v' := by
  simp only [insert, remove, append, filter_append, filter_filter, MultiMap.mk.injEq]
  simp only [ne_eq, filter_cons, filter_nil, h, h.symm, not_true_eq_false,
    not_false_eq_true, decide_true, decide_false, if_true, if_false, append_nil,
    Bool.false_eq_true, Bool.and_true, Bool.and_false]
  congr 2
  apply filter_congr
  intro line _
  by_cases hk : line.1 = k <;> by_cases hk' : line.1 = k' <;> simp [hk, hk']

lemma mem_getAll {v : ν} : v ∈ m.getAll k ↔ (k, v) ∈ m.lines := by simp [getAll]

lemma getAll_foldl_remove_filter (p : κ → Bool) (m : MultiMap κ ν) (k : κ) :
    (((m.lines.map Prod.fst).filter p).foldl remove m).getAll k =
      if p k then [] else m.getAll k := by
  rw [getAll_foldl_remove]
  by_cases hp : p k
  · rw [if_pos hp]
    by_cases hk : k ∈ m.lines.map Prod.fst
    · rw [if_pos (mem_filter.mpr ⟨hk, hp⟩)]
    rw [ite_eq_left_iff]
    intro _
    rw [eq_nil_iff_forall_not_mem]
    intro v hv
    exact hk (mem_map.mpr ⟨_, mem_getAll.mp hv, rfl⟩)
  · rw [if_neg hp, if_neg fun hm => hp (mem_filter.mp hm).2]

lemma AgreeOff.refl (keys : List κ) (m : MultiMap κ ν) : AgreeOff keys m m := fun _ _ => rfl

lemma AgreeOff.trans {m₁ m₂ m₃ : MultiMap κ ν} (h : AgreeOff keys m₁ m₂)
    (h' : AgreeOff keys m₂ m₃) : AgreeOff keys m₁ m₃ :=
  fun k hk => (h' k hk).trans (h k hk)

lemma AgreeOff.mono {keys' : List κ} {m' : MultiMap κ ν} (h : AgreeOff keys m m')
    (hs : ∀ k ∈ keys, k ∈ keys') : AgreeOff keys' m m' :=
  fun k hk => h k fun hm => hk (hs k hm)

lemma agreeOff_remove (hk : k ∈ keys) (m : MultiMap κ ν) : AgreeOff keys m (m.remove k) := by
  intro k' hk'
  have hne : k' ≠ k := by
    rintro rfl
    exact hk' hk
  exact getAll_remove_of_ne hne m

lemma agreeOff_insert (hk : k ∈ keys) (m : MultiMap κ ν) (v : ν) :
    AgreeOff keys m (m.insert k v) := by
  intro k' hk'
  have hne : k' ≠ k := by
    rintro rfl
    exact hk' hk
  exact getAll_insert_of_ne hne m v

lemma nodup_insert (m : MultiMap κ ν) (h : (m.lines.map Prod.fst).Nodup) (k : κ) (v : ν) :
    ((m.insert k v).lines.map Prod.fst).Nodup := by
  simp only [insert, append, remove, map_append, map_cons, map_nil]
  rw [nodup_append]
  refine ⟨h.sublist ((filter_sublist).map Prod.fst), nodup_singleton k, ?_⟩
  intro key hk k' hk' heq
  obtain ⟨line, hl, rfl⟩ := mem_map.mp hk
  rw [mem_singleton] at hk'
  have hne := (mem_filter.mp hl).2
  simp [heq, hk'] at hne

lemma getAll_foldl_insert_of_notMem {lines : List (κ × ν)} (h : k ∉ lines.map Prod.fst)
    (m : MultiMap κ ν) :
    (lines.foldl (fun m line => m.insert line.1 line.2) m).getAll k = m.getAll k := by
  induction lines generalizing m with
  | nil => rfl
  | cons line lines ih =>
    rw [map_cons, mem_cons, not_or] at h
    rw [foldl_cons, ih h.2, getAll_insert_of_ne h.1]

lemma getAll_foldl_insert_of_mem {lines : List (κ × ν)} (hnodup : (lines.map Prod.fst).Nodup)
    {line : κ × ν} (h : line ∈ lines) (m : MultiMap κ ν) :
    (lines.foldl (fun m line => m.insert line.1 line.2) m).getAll line.1 = [line.2] := by
  induction lines generalizing m with
  | nil => cases h
  | cons first lines ih =>
    rw [map_cons, nodup_cons] at hnodup
    rw [foldl_cons]
    rcases mem_cons.mp h with rfl | hm
    · rw [getAll_foldl_insert_of_notMem hnodup.1, getAll_insert_self]
    · exact ih hnodup.2 hm _

lemma getAll_eq_nil_of_notMem (h : k ∉ m.lines.map Prod.fst) : m.getAll k = [] := by
  rw [eq_nil_iff_forall_not_mem]
  intro v hv
  exact h (mem_map.mpr ⟨_, mem_getAll.mp hv, rfl⟩)

lemma getAll_cons (line : κ × ν) (lines : List (κ × ν)) (k : κ) :
    (⟨line :: lines⟩ : MultiMap κ ν).getAll k =
      if line.1 = k then line.2 :: (⟨lines⟩ : MultiMap κ ν).getAll k
      else (⟨lines⟩ : MultiMap κ ν).getAll k := by
  by_cases hk : line.1 = k <;> simp [getAll, hk]

lemma getAll_foldl_insert (hnodup : (m.lines.map Prod.fst).Nodup) (k : κ) (base : MultiMap κ ν) :
    (m.lines.foldl (fun m line => m.insert line.1 line.2) base).getAll k =
      if k ∈ m.lines.map Prod.fst then m.getAll k else base.getAll k := by
  split
  next hk =>
    obtain ⟨line, hlin, rfl⟩ := mem_map.mp hk
    -- the map itself is what the lines make of nothing
    have hs : ∀ (lines : List (κ × ν)), (lines.map Prod.fst).Nodup → line ∈ lines →
        (⟨lines⟩ : MultiMap κ ν).getAll line.1 = [line.2] := by
      intro lines hl hm
      induction lines with
      | nil => cases hm
      | cons first lines ih =>
        rw [map_cons, nodup_cons] at hl
        rw [getAll_cons]
        rcases mem_cons.mp hm with rfl | hr
        · rw [if_pos rfl, getAll_eq_nil_of_notMem (m := ⟨lines⟩) hl.1]
        have hne : first.1 ≠ line.1 := by
          intro heq
          exact hl.1 (heq ▸ mem_map.mpr ⟨line, hr, rfl⟩)
        rw [if_neg hne, ih hl.2 hr]
    rw [getAll_foldl_insert_of_mem hnodup hlin, hs m.lines hnodup hlin]
  next hk =>
    exact getAll_foldl_insert_of_notMem hk base

lemma getAll_foldl_append (lines : List (κ × ν)) (m : MultiMap κ ν) (k : κ) :
    (lines.foldl (fun m line => m.append line.1 line.2) m).getAll k =
      m.getAll k ++ (⟨lines⟩ : MultiMap κ ν).getAll k := by
  induction lines generalizing m with
  | nil => simp
  | cons line lines ih =>
    rw [foldl_cons, ih, getAll_cons]
    by_cases hk : line.1 = k
    · subst hk
      rw [getAll_append_self, if_pos rfl, append_assoc, singleton_append]
    · rw [getAll_append_of_ne (Ne.symm hk), if_neg hk]

end MultiMap

end Wire
