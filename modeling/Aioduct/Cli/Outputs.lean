import Aioduct.Cli.Filename
import Aioduct.Cli.WebDav

/-!
# The files of several downloads

`download_multi_mode` of `download/mod.rs` and `control_path` of `download/control_file.rs`: the
outputs are chosen one after another, all of them before the first download starts.
-/

namespace Aioduct.Cli

open Wire Http Filename List

variable {outputs before after l : List Path} {present : Path → Bool}

variable (path : Path)

def lastText : Text :=
  match path.getLast? with
  | none | some .rootDir => []
  | some .curDir => ['.']
  | some .parentDir => ['.', '.']
  | some (.normal name) => name.text

lemma slash_notMem_lastText : '/' ∉ lastText path := by
  unfold lastText
  split
  · decide
  · decide
  · decide
  · decide
  · next name _ => exact name.isName.2.2.2

lemma isName_controlName : IsName (lastText path ++ ".aioduct".toList) := by
  apply IsName.of_length
  · rw [length_append]
    exact Nat.lt_add_left _ (by decide)
  · rw [mem_append, not_or]
    exact ⟨slash_notMem_lastText path, by decide⟩

def controlPath : Path :=
  let parent := match path.getLast? with
    | none | some .rootDir => path
    | _ => path.dropLast
  parent ++ [.normal ⟨_, isName_controlName path⟩]

lemma lastText_append (name : FileName) :
    lastText (path ++ [.normal name]) = name.text := by simp [lastText]

lemma length_lastText_controlPath :
    (lastText (controlPath path)).length = (lastText path).length + 8 := by
  rw [controlPath, lastText_append, length_append]
  rfl

def Meet (p q : Path) : Prop := p = q ∨ p = controlPath q ∨ q = controlPath p

def DisjointFiles (outputs : List Path) : Prop :=
  outputs.Nodup ∧ ∀ p ∈ outputs, ∀ q ∈ outputs, p ≠ controlPath q

lemma disjointFiles_of_pairwise (h : outputs.Pairwise fun p q => ¬Meet p q) :
    DisjointFiles outputs := by
  have hs : ∀ p, p ≠ controlPath p := by
    intro p heq
    have hlen := length_lastText_controlPath p
    rw [← heq] at hlen
    omega
  refine ⟨h.imp fun hf heq => hf (.inl heq), ?_⟩
  exact List.Pairwise.forall_of_forall_of_flip (fun p _ => hs p)
    (h.imp fun hf heq => hf (.inr (.inl heq)))
    (h.imp fun hf heq => hf (.inr (.inr heq)))

/-- The headers are those of the answer to its probe. -/
structure ProbedUri extends ExpandedUri Text where
  headers : HeaderMap := ⟨[]⟩

def ProbedUri.name (self : ProbedUri) : Text :=
  match self.knownSize with
  | some _ => fromUrl self.url
  | none => fromUrlAndHeaders self.url self.headers

def Disk.of (present : Path → Bool) : Disk := ⟨present, fun path => present (controlPath path)⟩

namespace OutputOptions

variable (self : OutputOptions)

/-- A complete output is skipped; `verified` are those that have the checksum. -/
def taskOutput (hasChecksum : Bool) (present verified : Path → Bool) (uri : ProbedUri) :
    Option Path :=
  let output := self.resolveOutputPath (.of present) uri.name uri.relativePath
  if present output && !present (controlPath output) && (!hasChecksum || verified output) then none
  else some output

def handed (hasChecksum : Bool) (present verified : Path → Bool) (uris : List ProbedUri) :
    List Path :=
  let tasks := uris.filterMap (self.taskOutput hasChecksum present verified)
  if hasChecksum && 1 < tasks.length then [] else tasks

/-- The path of the user; or the named one, and then those that a renamed file gets. -/
def choices (uri : ProbedUri) : List Path :=
  match self.out with
  | some out => [(Path.ofText self.dir).join (Path.ofText out)]
  | none =>
    let path := self.namedPath uri.name uri.relativePath
    path :: if !self.allowOverwrite && self.autoFileRenaming then
      candidates path (path.parent.getD []) else []

lemma length_decimal_of_mem {i : Nat} (h : i ∈ List.range' 1 999) :
    (Text.decimal i).length ≤ 3 := by
  rw [Text.decimal, Text.ofAscii, length_map]
  exact length_numeral_le (by decide) (by rw [mem_range'_1] at h; omega)

/-- The first choice is taken unless it is there and not resumed, and then the next one that is
not there. The names of all choices are of nearly the same length. -/
lemma choices_spec (uri : ProbedUri) :
    ∃ path rest, self.choices uri = path :: rest ∧
      (∀ q ∈ rest, (lastText path).length ≤ (lastText q).length ∧
        (lastText q).length ≤ (lastText path).length + 4) ∧
      ∀ present, self.resolveOutputPath (.of present) uri.name uri.relativePath =
        if !self.noResume && present (controlPath path) then path
        else if present path then (rest.find? (!present ·)).getD path
        else path := by
  unfold choices resolveOutputPath
  cases self.out with
  | some out => exact ⟨_, [], rfl, by simp, by simp⟩
  | none =>
    obtain ⟨names, hne, heq, -⟩ := self.below_namedPath uri.name uri.relativePath
    obtain ⟨names, last, rfl⟩ := (eq_nil_or_concat' names).resolve_left hne
    rw [map_append, ← append_assoc] at heq
    generalize Path.ofText self.dir ++ names.map .normal = parent at heq
    change self.namedPath uri.name uri.relativePath = parent ++ [.normal last] at heq
    have hp := Path.parent_append_normal parent last
    simp only [heq, hp, Option.getD_some]
    refine ⟨_, _, rfl, ?_, fun present => ?_⟩
    · intro q hq
      split at hq
      · obtain ⟨i, hi, rfl⟩ := mem_map.mp hq
        have hd := length_decimal_of_mem hi
        rw [lastText_append, lastText_append, text_candidate, length_candidateName]
        omega
      · cases hq
    · rw [autoRename_eq _ hp]
      cases self.allowOverwrite <;> cases self.autoFileRenaming <;> simp [Disk.of]

variable {self} {uri : ProbedUri} {p q : Path}

lemma ne_controlPath_of_mem (hp : p ∈ self.choices uri) (hq : q ∈ self.choices uri) :
    p ≠ controlPath q := by
  rintro rfl
  obtain ⟨path, rest, hc, hr, -⟩ := self.choices_spec uri
  have hl : ∀ q ∈ path :: rest, (lastText path).length ≤ (lastText q).length ∧
      (lastText q).length ≤ (lastText path).length + 4 :=
    forall_mem_cons.mpr ⟨by omega, hr⟩
  rw [hc] at hp hq
  have hcon := length_lastText_controlPath q
  have hlon := hl _ hp
  have hs := hl q hq
  omega

lemma mem_choices {hasChecksum : Bool} {verified : Path → Bool}
    (h : self.taskOutput hasChecksum present verified uri = some p) : p ∈ self.choices uri := by
  obtain ⟨path, rest, hc, -, hr⟩ := self.choices_spec uri
  unfold taskOutput at h
  simp only at h
  split_ifs at h
  cases h
  rw [hr, hc]
  split
  · exact mem_cons_self
  split
  · cases hf : rest.find? (!present ·) with
    | none => exact mem_cons_self
    | some q => exact mem_cons_of_mem _ (mem_of_find?_eq_some hf)
  · exact mem_cons_self

/-- A choice is made when those before it are there and it is not. -/
lemma taskOutput_of_before (h : self.choices uri = before ++ p :: after)
    (hb : ∀ q ∈ before, present q ∧ present (controlPath q) = false)
    (hp : present p = false) : self.taskOutput false present (fun _ => false) uri = some p := by
  obtain ⟨path, rest, hc, -, hr⟩ := self.choices_spec uri
  have ho : self.resolveOutputPath (.of present) uri.name uri.relativePath = p := by
    rw [hr]
    rw [hc] at h
    cases before with
    | nil =>
      obtain ⟨rfl, -⟩ := List.cons.inj h
      simp [hp]
    | cons first before =>
      obtain ⟨rfl, rfl⟩ := List.cons.inj h
      obtain ⟨hf, hb⟩ := forall_mem_cons.mp hb
      have hnone : before.find? (!present ·) = none := by
        rw [List.find?_eq_none]
        intro q hq
        simp [hb q hq]
      simp [hf, hnone, hp]
  simp [taskOutput, ho, hp]

lemma exists_first {P : Path → Prop} (h : ∃ p ∈ l, P p) :
    ∃ before p after, l = before ++ p :: after ∧ P p ∧ ∀ q ∈ before, ¬P q := by
  classical
  have hsome : (l.find? (P ·)).isSome := by simpa using h
  obtain ⟨p, hf⟩ := Option.isSome_iff_exists.mp hsome
  obtain ⟨hp, before, after, heq, hb⟩ := List.find?_eq_some_iff_append.mp hf
  exact ⟨before, p, after, heq, by simpa using hp, by simpa using hb⟩

/-- The disk on which two URIs get the first of their paths that meet: what comes before these
is there, and nothing else. -/
lemma exists_present_of_meet {r s : ProbedUri}
    (h : ∃ p ∈ self.choices r, ∃ q ∈ self.choices s, Meet p q) :
    ∃ present p q, Meet p q ∧ self.taskOutput false present (fun _ => false) r = some p ∧
      self.taskOutput false present (fun _ => false) s = some q := by
  obtain ⟨before, p, after, hr, hm, hb⟩ := exists_first h
  obtain ⟨before', q, after', hs, hmee, hb'⟩ := exists_first hm
  have hfir : ∀ x ∈ before, x ∈ self.choices r := fun x hx => by simp [hr, hx]
  have hsec : ∀ x ∈ before', x ∈ self.choices s := fun x hx => by simp [hs, hx]
  have hf : ∀ x ∈ before, ∀ y ∈ self.choices s, ¬Meet x y :=
    fun x hx y hy hxy => hb x hx ⟨y, hy, hxy⟩
  refine ⟨fun x => decide (x ∈ before ∨ x ∈ before'), p, q, hmee, taskOutput_of_before hr ?_ ?_,
    taskOutput_of_before hs ?_ ?_⟩
  · intro x hx
    simp only [hx, true_or, decide_true, decide_eq_false_iff_not, true_and, not_or]
    exact ⟨fun hmem => ne_controlPath_of_mem (hfir _ hmem) (hfir x hx) rfl,
      fun hmem => hf x hx _ (hsec _ hmem) (.inr (.inr rfl))⟩
  · simp only [decide_eq_false_iff_not, not_or]
    exact ⟨fun hmem => hb p hmem hm, fun hmem => hb' p hmem (.inl rfl)⟩
  · intro x hx
    simp only [hx, or_true, decide_true, decide_eq_false_iff_not, true_and, not_or]
    exact ⟨fun hmem => hf _ hmem x (hsec x hx) (.inr (.inl rfl)),
      fun hmem => ne_controlPath_of_mem (hsec _ hmem) (hsec x hx) rfl⟩
  · simp only [decide_eq_false_iff_not, not_or]
    exact ⟨fun hmem => hf q hmem q (by simp [hs]) (.inl rfl), fun hmem => hb' q hmem hmee⟩

/-- The files of several downloads are disjoint on every disk exactly if there is a checksum, with
which there is one download at most, or no two of the URIs can get paths that meet. -/
theorem handed_disjoint_iff (self : OutputOptions) (hasChecksum : Bool) (uris : List ProbedUri) :
    (∀ present verified, DisjointFiles (self.handed hasChecksum present verified uris)) ↔
      hasChecksum = true ∨ uris.Pairwise fun r s =>
        ∀ p ∈ self.choices r, ∀ q ∈ self.choices s, ¬Meet p q := by
  constructor
  · intro hd
    rw [or_iff_not_imp_left, Bool.not_eq_true, pairwise_iff_forall_sublist]
    rintro rfl r s hs
    by_contra hm
    push Not at hm
    obtain ⟨present, p, q, hmee, hp, hq⟩ := exists_present_of_meet hm
    obtain ⟨hnodup, hc⟩ := hd present fun _ => false
    have hpai : [p, q].Sublist (self.handed false present (fun _ => false) uris) := by
      have hmap := hs.filterMap (self.taskOutput false present fun _ => false)
      simpa [hp, hq, handed] using hmap
    rcases hmee with heq | heq | heq
    · simpa [heq] using hnodup.sublist hpai
    · exact hc p (hpai.subset (by simp)) q (hpai.subset (by simp)) heq
    · exact hc q (hpai.subset (by simp)) p (hpai.subset (by simp)) heq
  · intro h present verified
    apply disjointFiles_of_pairwise
    unfold handed
    simp only
    split
    · exact .nil
    next hfew =>
    rcases h with rfl | ha
    · rw [Bool.true_and, decide_eq_true_eq] at hfew
      rw [pairwise_iff_getElem]
      omega
    · rw [pairwise_filterMap]
      exact ha.imp fun hf p hp q hq => hf p (mem_choices hp) q (mem_choices hq)

def namesakes : List ProbedUri :=
  [{ url := "https://h/a/x".toList }, { url := "https://h/b/x".toList }]

theorem namesakes_share_output :
    ¬DisjointFiles (downloads.handed false (fun _ => false) (fun _ => false) namesakes) := by
  rintro ⟨hnodup, -⟩
  exact absurd hnodup (by decide)

end OutputOptions

end Aioduct.Cli
