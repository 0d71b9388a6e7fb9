import Aioduct.Wire.Text

/-!
# Unix paths

A path is the list of its components, which is what paths are compared by.
-/

namespace Wire

open List

variable (s : Text)

def IsName : Prop := s ≠ [] ∧ s ≠ ['.'] ∧ s ≠ ['.', '.'] ∧ '/' ∉ s

instance : DecidablePred IsName := fun _ => inferInstanceAs (Decidable (_ ∧ _ ∧ _ ∧ _))

lemma IsName.of_length {s : Text} (hlen : 2 < s.length) (h : '/' ∉ s) : IsName s := by
  refine ⟨?_, ?_, ?_, h⟩
  all_goals
    intro heq
    simp [heq] at hlen

structure FileName where
  text : Text
  isName : IsName text
  deriving DecidableEq

inductive Component where
  | rootDir
  | curDir
  | parentDir
  | normal (name : FileName)
  deriving DecidableEq

abbrev Path := List Component

namespace Path

def segment : Option Component :=
  if h : IsName s then some (.normal ⟨s, h⟩)
  else if s = ['.', '.'] then some .parentDir
  else none

def first : Option Component := if s = ['.'] then some .curDir else segment s

def ofText : Path :=
  match s.splitOn '/' with
  | [] => []
  | start :: rest =>
    (if s.head? = some '/' then some .rootDir else first start).toList ++ rest.filterMap segment

variable (path : Path)

/-- `Path::join`: an absolute path takes the place of the one before it. -/
def join (other : Path) : Path :=
  if other.head? = some .rootDir || path.isEmpty then other
  else path ++ other.filter (· ≠ .curDir)

def parent : Option Path :=
  match path.getLast? with
  | none | some .rootDir => none
  | some _ => some path.dropLast

def fileName : Option FileName :=
  match path.getLast? with
  | some (.normal name) => some name
  | _ => none

/-- The part before the last dot and the part after it, unless that dot is the first
character. -/
def splitExtension (name : Text) : Text × Option Text :=
  match (name.rdropWhile (· != '.')).dropLast with
  | [] => (name, none)
  | stem => (stem, some (name.afterLast '.'))

def fileStem : Option Text := path.fileName.map fun name => (splitExtension name.text).1

def extension : Option Text := path.fileName.bind fun name => (splitExtension name.text).2

lemma ofText_of_isName {s : Text} (h : IsName s) : ofText s = [.normal ⟨s, h⟩] := by
  have hh : s.head? ≠ some '/' := fun heq => h.2.2.2 (mem_of_head? heq)
  have hf : first s = some (.normal ⟨s, h⟩) := by rw [first, if_neg h.2.1, segment, dif_pos h]
  rw [ofText, splitOn_eq_singleton h.2.2.2]
  simp only
  rw [if_neg hh, hf]
  rfl

variable (name : FileName)

lemma join_normal : path.join [.normal name] = path ++ [.normal name] := by
  cases path with
  | nil => rfl
  | cons component path => simp [join]

lemma join_map_normal (names : List FileName) :
    path.join (names.map .normal) = path ++ names.map .normal := by
  unfold join
  split
  · next h =>
    simp only [Bool.or_eq_true, decide_eq_true_eq] at h
    rcases h with h | h
    · cases names <;> simp at h
    · rw [isEmpty_iff.mp h, nil_append]
  rw [filter_eq_self.mpr]
  intro component hc
  obtain ⟨name, -, rfl⟩ := mem_map.mp hc
  rfl

lemma parent_append_normal : parent (path ++ [.normal name]) = some path := by simp [parent]

lemma fileName_append_normal : fileName (path ++ [.normal name]) = some name := by simp [fileName]

lemma splitExtension_cases (name : Text) :
    splitExtension name = (name, none) ∨
      ∃ stem extension, splitExtension name = (stem, some extension) ∧ stem ≠ [] ∧
        name = stem ++ '.' :: extension := by
  unfold splitExtension
  split
  · exact .inl rfl
  next stem hs =>
  refine .inr ⟨_, _, rfl, hs, ?_⟩
  have hne : name.rdropWhile (· != '.') ≠ [] := by
    intro hnil
    rw [hnil] at hs
    exact hs rfl
  -- what is left before the dropped part ends in the last dot
  have hl : (name.rdropWhile (· != '.')).getLast hne = '.' := by
    simpa using rdropWhile_last_not (· != '.') name hne
  have hb :
      (name.rdropWhile (· != '.')).dropLast ++ ['.'] = name.rdropWhile (· != '.') := by
    have hj := dropLast_append_getLast hne
    rwa [hl] at hj
  calc
    name = name.rdropWhile (· != '.') ++ name.rtakeWhile (· != '.') :=
      rdropWhile_append_rtakeWhile.symm
    _ = ((name.rdropWhile (· != '.')).dropLast ++ ['.']) ++ name.afterLast '.' := by
      rw [hb]
      rfl
    _ = _ := by rw [append_assoc]; rfl

end Path

end Wire
