import Aioduct.Cli.Resume
import Aioduct.Wire.Path

/-!
# Output names

`download/filename.rs` and `resolve_output_path` of `download/engine.rs`: the path that a download
is written to. What exists on the disk is an argument.
-/

namespace Aioduct.Cli

open Wire Http List Path

namespace Filename

variable {parent dir : Path}

def download : Text := "download".toList

/-! ### Sanitized names -/

variable (c : Char)

def isWindowsInvalidChar : Bool :=
  ['<', '>', ':', '"', '|', '?', '*', '/', '\\'].contains c || Text.isControl c

def isDotOrSpace : Bool := c == '.' || c == ' '

variable (name : Text)

def windowsStem : Text :=
  ((name.beforeFirst '.').rdropWhile isDotOrSpace).map Char.toUpper

def windowsReservedNames : List Text :=
  ["CON", "PRN", "AUX", "NUL", "COM1", "COM2", "COM3", "COM4", "COM5", "COM6", "COM7", "COM8",
    "COM9", "LPT1", "LPT2", "LPT3", "LPT4", "LPT5", "LPT6", "LPT7", "LPT8", "LPT9"].map
    String.toList

def isWindowsReservedName : Bool := windowsReservedNames.contains (windowsStem name)

def isNoName : Bool := name.isEmpty || name == ['.'] || name == ['.', '.']

def normalized (s : Text) : Text := s.map fun c => if c == '\\' then '/' else c

def replaceInvalid : Char := if isWindowsInvalidChar c then '_' else c

def baseName : Text :=
  ((normalized name).afterLast '/').trim.trimMatches (· == Char.ofNat 0)

/-- A name without invalid characters and without dots and spaces at its end. -/
def cleaned : Text := (name.map replaceInvalid).rdropWhile isDotOrSpace

def sanitizeFileName : Text :=
  let name := baseName name
  if isNoName name then download
  else
    let sanitized := cleaned name
    if isNoName sanitized then download
    else if isWindowsReservedName sanitized then '_' :: sanitized
    else sanitized

def sanitizeRelativePath (path : Text) : Path :=
  let segments := ((normalized path).splitOn '/').map .trim
  let out := (segments.filter (!isNoName ·)).foldl
    (fun out segment => Path.join out (Path.ofText (sanitizeFileName segment))) []
  if out.isEmpty then .ofText download else out

/-- The loop of `percent_decode` over the bytes. -/
def percentDecodeBytes : Bytes → Option Bytes
  | b :: high :: low :: rest =>
    if b == byte '%' then
      if Utf8.valid [high, low] then
        match hexPair high low with
        | some value => (percentDecodeBytes rest).map (value :: ·)
        | none => (percentDecodeBytes (high :: low :: rest)).map (b :: ·)
      else none
    else (percentDecodeBytes (high :: low :: rest)).map (b :: ·)
  | b :: rest => (percentDecodeBytes rest).map (b :: ·)
  | [] => some []

def percentDecode (s : Text) : Option Text := (percentDecodeBytes s.encode).bind Text.decode

def unquoted (s : Text) : Option Text :=
  let name := s.trimMatches (· == '"')
  if name.isEmpty then none else some name

def parseContentDisposition (cd : Text) : Option Text :=
  (cd.splitOn ';').findSome? fun part =>
    let part := Text.trim part
    match List.dropPrefix? part "filename*=".toList with
    | some rest => do
      let encoded ← (List.dropPrefix? rest "UTF-8''".toList).or
        (List.dropPrefix? rest "utf-8''".toList)
      unquoted (← percentDecode encoded)
    | none => do unquoted (← List.dropPrefix? part "filename=".toList)

def fromUrl (url : Text) : Text :=
  sanitizeFileName (((url.beforeFirst '?').beforeFirst '#').afterLast '/')

def contentDisposition : HeaderName := ⟨ascii "content-disposition", by decide⟩

def fromUrlAndHeaders (url : Text) (headers : HeaderMap) : Text :=
  let name := do
    let cd ← (← headers.get contentDisposition).toStr
    parseContentDisposition (.ofAscii cd)
  match name with
  | some name => sanitizeFileName name
  | none => fromUrl url

def candidateName (stem : Text) (extension : Option Text) (i : Nat) : Text :=
  match extension with
  | some extension => stem ++ '.' :: (Text.decimal i ++ '.' :: extension)
  | none => stem ++ '.' :: Text.decimal i

variable (present : Path → Bool)

def autoRename (path : Path) : Path :=
  let stem := path.fileStem.getD download
  let parent := path.parent.getD [.curDir]
  let candidates := (List.range' 1 999).map fun i =>
    parent.join (.ofText (candidateName stem path.extension i))
  (candidates.find? (!present ·)).getD path

/-! ### What a name may be -/

def reservedChars : List Char := ['<', '>', ':', '"', '|', '?', '*']

def AllowedChar : Prop :=
  c ≠ '/' ∧ c ≠ '\\' ∧ Text.isControl c = false ∧ c ∉ reservedChars

/-- A name of ordinary characters that does not end in a dot or a space. -/
structure Portable (name : Text) : Prop where
  ne_nil : name ≠ []
  chars : ∀ c ∈ name, AllowedChar c
  last : ∀ c, name.getLast? = some c → c ≠ '.' ∧ c ≠ ' '

/-- The names of ports with a digit or a superscript digit count as devices. -/
def deviceNames : List Text :=
  ["CON", "PRN", "AUX", "NUL", "CONIN$", "CONOUT$"].map String.toList ++
    ["COM", "LPT"].flatMap fun port => "123456789¹²³".toList.map (port.toList ++ [·])

def unlistedDevices : List Text :=
  ["CONIN$", "CONOUT$", "COM¹", "COM²", "COM³", "LPT¹", "LPT²", "LPT³"].map String.toList

lemma mem_deviceNames (stem : Text) :
    stem ∈ deviceNames ↔ stem ∈ windowsReservedNames ∨ stem ∈ unlistedDevices := by
  have hp : deviceNames.Perm (windowsReservedNames ++ unlistedDevices) := by decide
  rw [hp.mem_iff, mem_append]

variable {c : Char} {name : Text} {path : Path}

lemma allowedChar_of_valid (h : isWindowsInvalidChar c = false) : AllowedChar c := by
  simp only [isWindowsInvalidChar, Bool.or_eq_false_iff, contains_eq_mem,
    decide_eq_false_iff_not, mem_cons, not_mem_nil, or_false, not_or] at h
  simp only [AllowedChar, reservedChars, mem_cons, not_mem_nil, or_false, not_or]
  tauto

lemma allowedChar_replaceInvalid (c : Char) : AllowedChar (replaceInvalid c) := by
  unfold replaceInvalid
  split
  · exact allowedChar_of_valid (by decide)
  · next h => exact allowedChar_of_valid (by simpa using h)

namespace Portable

variable {name : Text}

lemma isName (h : Portable name) : IsName name := by
  refine ⟨h.ne_nil, ?_, ?_, fun hs => (h.chars _ hs).1 rfl⟩
  · rintro rfl
    exact (h.last '.' rfl).1 rfl
  · rintro rfl
    exact (h.last '.' rfl).1 rfl

lemma cons (h : Portable name) (hc : AllowedChar c) : Portable (c :: name) where
  ne_nil := cons_ne_nil c name
  chars := forall_mem_cons.mpr ⟨hc, h.chars⟩
  last := by
    rw [List.getLast?_cons_of_ne_nil h.ne_nil]
    exact h.last

end Portable

lemma portable_cleaned (h : cleaned name ≠ []) : Portable (cleaned name) where
  ne_nil := h
  chars c hc := by
    obtain ⟨d, -, rfl⟩ := mem_map.mp ((List.rdropWhile_prefix _ _).subset hc)
    exact allowedChar_replaceInvalid d
  last c hc := by
    rw [List.getLast?_eq_some_getLast h, Option.some.injEq] at hc
    have hl : ¬isDotOrSpace ((cleaned name).getLast h) :=
      rdropWhile_last_not isDotOrSpace _ h
    rw [hc] at hl
    simpa [isDotOrSpace] using hl

variable (s : Text)

lemma windowsStem_append (t : Text) : windowsStem (s ++ '.' :: t) = windowsStem s := by
  rw [windowsStem, Text.beforeFirst_append]
  rfl

lemma head_windowsStem_underscore : (windowsStem ('_' :: s)).head? = some '_' := by
  have hb : Text.beforeFirst '.' ('_' :: s) = '_' :: s.beforeFirst '.' := rfl
  have hne : ('_' :: s.beforeFirst '.').rdropWhile isDotOrSpace ≠ [] := by
    rw [Ne, rdropWhile_eq_nil_iff]
    intro hall
    exact absurd (hall '_' mem_cons_self) (by decide)
  have hs := rdropWhile_prefix isDotOrSpace ('_' :: s.beforeFirst '.')
  unfold windowsStem
  rw [hb]
  cases hste : ('_' :: s.beforeFirst '.').rdropWhile isDotOrSpace with
  | nil => exact absurd hste hne
  | cons c stem =>
    rw [hste, cons_prefix_cons] at hs
    rw [hs.1]
    rfl

lemma isWindowsReservedName_underscore : isWindowsReservedName ('_' :: s) = false := by
  have hh : ∀ stem ∈ windowsReservedNames, stem.head? ≠ some '_' := by decide
  rw [isWindowsReservedName, ← Bool.not_eq_true, contains_iff_mem]
  intro hm
  exact hh _ hm (head_windowsStem_underscore s)

structure Clean (name : Text) : Prop extends Portable name where
  notReserved : isWindowsReservedName name = false

lemma clean_download : Clean download where
  ne_nil := by decide
  chars c hc := by
    have hall : download.all (!isWindowsInvalidChar ·) := by decide
    exact allowedChar_of_valid (by simpa using all_eq_true.mp hall c hc)
  last c hc := by
    cases hc
    decide
  notReserved := by decide

lemma clean_sanitizeFileName (name : Text) : Clean (sanitizeFileName name) := by
  unfold sanitizeFileName
  simp only
  split
  · exact clean_download
  split
  · exact clean_download
  next hn =>
  have hp : Portable (cleaned (baseName name)) := by
    apply portable_cleaned
    intro hnil
    rw [hnil] at hn
    exact hn rfl
  split
  · exact ⟨hp.cons (allowedChar_of_valid (by decide)), isWindowsReservedName_underscore _⟩
  · next hr => exact ⟨hp, by simpa using hr⟩

/-! ### Renamed files -/

lemma allowedChar_decimal (i : Nat) : ∀ c ∈ Text.decimal i, AllowedChar c ∧ c ≠ '.' ∧ c ≠ ' ' := by
  apply Text.forall_mem_decimal
  simp only [AllowedChar]
  decide

lemma mem_candidateName {i : Nat}
    (hc : c ∈ candidateName (splitExtension name).1 (splitExtension name).2 i) :
    c ∈ name ∨ c = '.' ∨ c ∈ Text.decimal i := by
  rcases splitExtension_cases name with heq | ⟨stem, extension, heq, -, hn⟩
  · rw [heq] at hc
    simp only [candidateName, mem_append, mem_cons] at hc
    tauto
  rw [heq] at hc
  rw [hn]
  simp only [candidateName, mem_append, mem_cons] at hc ⊢
  tauto

lemma windowsStem_candidateName (name : Text) (i : Nat) :
    windowsStem (candidateName (splitExtension name).1 (splitExtension name).2 i) =
      windowsStem name := by
  rcases splitExtension_cases name with heq | ⟨stem, extension, heq, -, hn⟩
  · rw [heq, candidateName, windowsStem_append]
  · rw [heq, hn, candidateName, windowsStem_append, windowsStem_append]

lemma Clean.candidateName (h : Clean name) (i : Nat) :
    Clean (candidateName (splitExtension name).1 (splitExtension name).2 i) := by
  have hcha : ∀ c ∈ Filename.candidateName (splitExtension name).1
      (splitExtension name).2 i, AllowedChar c := by
    intro c hc
    rcases mem_candidateName hc with hc | rfl | hc
    · exact h.chars c hc
    · exact allowedChar_of_valid (by decide)
    · exact (allowedChar_decimal i c hc).1
  refine ⟨⟨by cases (splitExtension name).2 <;> simp [Filename.candidateName], hcha, ?_⟩, ?_⟩
  · intro c hc
    rcases splitExtension_cases name with heq | ⟨stem, extension, heq, -, hn⟩ <;> rw [heq] at hc
    · -- the last character is a digit
      have hd : '.' :: Text.decimal i = ['.'] ++ Text.decimal i := rfl
      rw [Filename.candidateName, List.getLast?_append_cons, hd,
        List.getLast?_append_of_ne_nil _ (Text.decimal_ne_nil i)] at hc
      exact (allowedChar_decimal i c (mem_of_getLast? hc)).2
    · -- the last character is that of the name
      apply h.last c
      rw [hn, List.getLast?_append_cons, ← hc, Filename.candidateName,
        List.getLast?_append_cons, ← cons_append, List.getLast?_append_cons]
  · rw [isWindowsReservedName, windowsStem_candidateName]
    exact h.notReserved

lemma length_candidateName (name : Text) (i : Nat) :
    (candidateName (splitExtension name).1 (splitExtension name).2 i).length =
      name.length + 1 + (Text.decimal i).length := by
  rcases splitExtension_cases name with heq | ⟨stem, extension, heq, -, hn⟩
  · simp only [heq, candidateName, length_append, length_cons]
    omega
  · rw [heq]
    simp only [hn, candidateName, length_append, length_cons]
    omega

lemma isName_candidateName (h : IsName name) (i : Nat) :
    IsName (candidateName (splitExtension name).1 (splitExtension name).2 i) := by
  have hlen := length_candidateName name i
  have hn := length_pos_of_ne_nil h.1
  have hd := length_pos_of_ne_nil (Text.decimal_ne_nil i)
  refine IsName.of_length (by omega) fun hc => ?_
  rcases mem_candidateName hc with hc | hc | hc
  · exact h.2.2.2 hc
  · cases hc
  · exact (allowedChar_decimal i _ hc).1.1 rfl

lemma isName_candidateName_path (path : Path) (i : Nat) :
    IsName (candidateName (path.fileStem.getD download) path.extension i) := by
  unfold fileStem extension
  cases path.fileName with
  | none =>
    have hn := isName_candidateName clean_download.isName i
    rwa [show splitExtension download = (download, none) by decide] at hn
  | some name => exact isName_candidateName name.isName i

def candidate (path : Path) (i : Nat) : FileName := ⟨_, isName_candidateName_path path i⟩

lemma text_candidate (path : Path) (name : FileName) (i : Nat) :
    (candidate (path ++ [.normal name]) i).text = candidateName
      (splitExtension name.text).1 (splitExtension name.text).2 i := by
  simp [candidate, fileStem, extension, fileName_append_normal]

def candidates (path parent : Path) : List Path :=
  (List.range' 1 999).map fun i => parent ++ [.normal (candidate path i)]

lemma autoRename_eq (h : path.parent = some parent) :
    autoRename present path = ((candidates path parent).find? (!present ·)).getD path := by
  have hc : ∀ i, parent.join (.ofText (candidateName (path.fileStem.getD download)
      path.extension i)) = parent ++ [.normal (candidate path i)] := by
    intro i
    rw [ofText_of_isName (isName_candidateName_path path i), join_normal]
    rfl
  unfold autoRename candidates
  simp only [h, Option.getD_some, hc]

lemma autoRename_cases (h : path.parent = some parent) :
    autoRename present path = path ∨
      ∃ i, autoRename present path = parent ++ [.normal (candidate path i)] := by
  rw [autoRename_eq present h]
  cases hf : (candidates path parent).find? (!present ·) with
  | none => exact .inl rfl
  | some candidate =>
    obtain ⟨i, -, rfl⟩ := mem_map.mp (mem_of_find?_eq_some hf)
    exact .inr ⟨i, rfl⟩

lemma parent_autoRename (h : path.parent = some parent) :
    (autoRename present path).parent = some parent := by
  rcases autoRename_cases present h with heq | ⟨i, heq⟩
  · rw [heq, h]
  · rw [heq, parent_append_normal]

def sanitizedName : FileName := ⟨sanitizeFileName s, (clean_sanitizeFileName s).isName⟩

lemma clean_sanitizedName : Clean (sanitizedName s).text := by
  simp only [sanitizedName, clean_sanitizeFileName]

lemma ofText_sanitizeFileName : ofText (sanitizeFileName s) = [.normal (sanitizedName s)] :=
  ofText_of_isName _

lemma foldl_join_sanitizeFileName (segments : List Text) (names : List FileName) :
    segments.foldl (fun out segment => join out (ofText (sanitizeFileName segment)))
      (names.map .normal) = (names ++ segments.map sanitizedName).map .normal := by
  induction segments generalizing names with
  | nil => simp
  | cons segment segments ih =>
    rw [foldl_cons, ofText_sanitizeFileName, join_normal]
    have hs := ih (names ++ [sanitizedName segment])
    simpa using hs

def Below (dir path : Path) : Prop :=
  ∃ names : List FileName, names ≠ [] ∧ path = dir ++ names.map .normal ∧
    ∀ name ∈ names, Clean name.text

/-- The stems of the names are known. -/
def BelowAs (dir : Path) (stems : List Text) (path : Path) : Prop :=
  ∃ names : List FileName, names ≠ [] ∧ path = dir ++ names.map .normal ∧
    (∀ name ∈ names, Clean name.text) ∧ names.map (windowsStem ·.text) = stems

variable {stems : List Text}

lemma BelowAs.below (h : BelowAs dir stems path) : Below dir path := by
  obtain ⟨names, hne, hp, hc, -⟩ := h
  exact ⟨names, hne, hp, hc⟩

lemma ofText_sanitizeFileName_below :
    BelowAs [] [windowsStem (sanitizeFileName s)] (ofText (sanitizeFileName s)) := by
  refine ⟨[sanitizedName s], cons_ne_nil _ _, ofText_sanitizeFileName s, ?_, rfl⟩
  rw [forall_mem_singleton]
  exact clean_sanitizedName s

def segments (path : Text) : List Text := ((normalized path).splitOn '/').map .trim

lemma sanitizeRelativePath_below (path : Text) :
    BelowAs [] (if (segments path).filter (!isNoName ·) = [] then [windowsStem download]
      else ((segments path).filter (!isNoName ·)).map fun s => windowsStem (sanitizeFileName s))
      (sanitizeRelativePath path) := by
  unfold sanitizeRelativePath
  simp only [show ((normalized path).splitOn '/').map Text.trim = segments path from rfl]
  generalize (segments path).filter (!isNoName ·) = segments
  have hf := foldl_join_sanitizeFileName segments []
  rw [map_nil, nil_append] at hf
  rw [hf]
  cases segments with
  | nil =>
    refine ⟨[⟨download, clean_download.isName⟩], cons_ne_nil _ _,
      ofText_of_isName clean_download.isName, ?_, rfl⟩
    simpa using clean_download
  | cons segment segments =>
    refine ⟨(segment :: segments).map sanitizedName, by simp, rfl, fun name hn => ?_,
      by simp [sanitizedName]⟩
    obtain ⟨segment, -, rfl⟩ := mem_map.mp hn
    exact clean_sanitizedName segment

lemma BelowAs.join (dir : Path) (h : BelowAs [] stems path) :
    BelowAs dir stems (dir.join path) := by
  obtain ⟨names, hne, rfl, hc⟩ := h
  exact ⟨names, hne, join_map_normal dir names, hc⟩

lemma BelowAs.autoRename (h : BelowAs dir stems path) (present : Path → Bool) :
    BelowAs dir stems (autoRename present path) := by
  obtain ⟨names, hne, rfl, hc, hs⟩ := h
  obtain ⟨names, name, rfl⟩ := (eq_nil_or_concat' names).resolve_left hne
  have hp : dir ++ (names ++ [name]).map .normal
      = (dir ++ names.map .normal) ++ [.normal name] := by simp
  rw [hp]
  rcases autoRename_cases present (parent_append_normal (dir ++ names.map .normal) name) with
    heq | ⟨i, heq⟩
  · exact ⟨names ++ [name], hne, by rw [heq, hp], hc, hs⟩
  have ht := text_candidate (dir ++ names.map .normal) name i
  refine ⟨names ++ [candidate ((dir ++ names.map .normal) ++ [.normal name]) i], by simp,
    heq.trans (by simp), fun renamed hr => ?_, ?_⟩
  · rcases mem_append.mp hr with hm | hm
    · exact hc renamed (mem_append_left _ hm)
    · rw [mem_singleton.mp hm, ht]
      exact (hc name (by simp)).candidateName i
  · rw [← hs, map_append, map_append, map_singleton, map_singleton, ht, windowsStem_candidateName]

/-- The directory and then names that are ordinary ones on every system. -/
def Confined (dir path : Path) : Prop :=
  ∃ names : List FileName, names ≠ [] ∧ path = dir ++ names.map .normal ∧
    ∀ name ∈ names, Portable name.text ∧ windowsStem name.text ∉ deviceNames

lemma Clean.notMem_deviceNames_iff (h : Clean name) :
    windowsStem name ∉ deviceNames ↔ windowsStem name ∉ unlistedDevices := by
  have hr : windowsStem name ∉ windowsReservedNames := by
    simpa [isWindowsReservedName] using h.notReserved
  rw [mem_deviceNames]
  tauto

lemma map_normal_injective : Function.Injective (List.map Component.normal) :=
  map_injective_iff.mpr fun _ _ h => Component.normal.inj h

lemma BelowAs.confined_iff (h : BelowAs dir stems path) :
    Confined dir path ↔ ∀ stem ∈ stems, stem ∉ unlistedDevices := by
  obtain ⟨names, hne, rfl, hc, rfl⟩ := h
  rw [forall_mem_map]
  constructor
  · rintro ⟨names', -, heq, hs⟩ name hn
    obtain rfl : names = names' := map_normal_injective (append_cancel_left heq)
    exact (hc name hn).notMem_deviceNames_iff.mp (hs name hn).2
  · intro hp
    refine ⟨names, hne, rfl, fun name hn => ⟨(hc name hn).toPortable, ?_⟩⟩
    exact (hc name hn).notMem_deviceNames_iff.mpr (hp name hn)

/-! ### Devices among the names that are given -/

lemma windowsStem_rdropWhile (s : Text) : windowsStem (s.rdropWhile isDotOrSpace) = windowsStem s := by
  induction s using reverseRecOn with
  | nil => rfl
  | append_singleton s c ih =>
    by_cases hc : isDotOrSpace c
    · rw [rdropWhile_concat_pos _ _ _ hc, ih, windowsStem, windowsStem, Text.beforeFirst,
        Text.beforeFirst, takeWhile_append]
      split
      next hall =>
        -- the character is the first dot, or a space at the end of the stem
        rw [(List.takeWhile_prefix _).eq_of_length hall, takeWhile_cons, takeWhile_nil]
        split
        · rw [rdropWhile_concat_pos _ _ _ hc]
        · rw [append_nil]
      · rfl
    · rw [rdropWhile_concat_neg _ _ _ hc]

lemma toUpper_of_invalid (h : isWindowsInvalidChar c) : c.toUpper = c := by
  unfold Char.toUpper
  rw [dif_neg]
  intro hl
  have hn : 97 ≤ c.toNat ∧ c.toNat ≤ 122 := ⟨hl.1, hl.2⟩
  simp only [isWindowsInvalidChar, Bool.or_eq_true, contains_iff_mem, mem_cons, not_mem_nil,
    or_false, Text.isControl, Bool.and_eq_true, decide_eq_true_eq] at h
  rcases h with (rfl | rfl | rfl | rfl | rfl | rfl | rfl | rfl | rfl) | h <;>
    first | omega | exact absurd hn (by decide)

lemma map_eq_iff {f g : Char → Char} {t d : Text} (h : ∀ c, ∀ x ∈ d, f c = x ↔ g c = x) :
    t.map f = d ↔ t.map g = d := by
  constructor
  · rintro rfl
    exact map_congr_left fun c hc => (h c _ (mem_map_of_mem hc)).mp rfl
  · rintro rfl
    exact map_congr_left fun c hc => (h c _ (mem_map_of_mem hc)).mpr rfl

/-- An invalid character is in no device's name, and neither is what stands for it. -/
lemma map_replaceInvalid_mem (t : Text) :
    t.map (fun c => (replaceInvalid c).toUpper) ∈ unlistedDevices ↔
      t.map Char.toUpper ∈ unlistedDevices := by
  have hall : unlistedDevices.all fun d => d.all fun x => !isWindowsInvalidChar x && x != '_' := by
    decide
  have hm : ∀ d ∈ unlistedDevices, t.map (fun c => (replaceInvalid c).toUpper) = d ↔
      t.map Char.toUpper = d := by
    intro d hd
    refine map_eq_iff fun c x hc => ?_
    have hx := all_eq_true.mp (all_eq_true.mp hall d hd) x hc
    rw [Bool.and_eq_true, Bool.not_eq_true', bne_iff_ne] at hx
    obtain ⟨hv, hu⟩ := hx
    unfold replaceInvalid
    split
    next hi =>
      rw [toUpper_of_invalid hi]
      refine iff_of_false (fun h => hu ?_) ?_
      · rw [← h]
        decide
      · rintro rfl
        exact Bool.false_ne_true (hv.symm.trans hi)
    · exact Iff.rfl
  exact ⟨fun h => (hm _ h).mp rfl ▸ h, fun h => (hm _ h).mpr rfl ▸ h⟩

lemma windowsStem_cleaned (name : Text) :
    windowsStem (cleaned name) ∈ unlistedDevices ↔ windowsStem name ∈ unlistedDevices := by
  have hd : (fun c => replaceInvalid c != '.') = fun c => c != '.' := by
    funext c
    unfold replaceInvalid
    split
    next hi =>
      have hc : c ≠ '.' := by
        rintro rfl
        exact absurd hi (by decide)
      simp [hc]
    · rfl
  have hp : isDotOrSpace ∘ replaceInvalid = isDotOrSpace := by
    funext c
    rw [Function.comp_apply, replaceInvalid]
    split
    next hi =>
      have hc : c ≠ '.' ∧ c ≠ ' ' := ⟨by rintro rfl; exact absurd hi (by decide),
        by rintro rfl; exact absurd hi (by decide)⟩
      simp [isDotOrSpace, hc]
    · rfl
  rw [cleaned, windowsStem_rdropWhile, windowsStem, Text.beforeFirst, takeWhile_map,
    show ((· != '.') ∘ replaceInvalid) = _ from hd, rdropWhile, ← map_reverse, dropWhile_map, hp,
    ← map_reverse, map_map]
  exact map_replaceInvalid_mem _

lemma windowsStem_of_isNoName (h : isNoName name) :
    windowsStem name = [] ∧ windowsStem name.trim = [] ∧ cleaned name = [] := by
  simp only [isNoName, Bool.or_eq_true, List.isEmpty_iff, beq_iff_eq] at h
  rcases h with (rfl | rfl) | rfl <;> decide

lemma underscore_notMem (s : Text) : windowsStem ('_' :: s) ∉ unlistedDevices := by
  have hh : ∀ stem ∈ unlistedDevices, stem.head? ≠ some '_' := by decide
  exact fun hm => hh _ hm (head_windowsStem_underscore s)

lemma windowsStem_sanitizeFileName (name : Text) :
    windowsStem (sanitizeFileName name) ∈ unlistedDevices ↔
      windowsStem (baseName name) ∈ unlistedDevices := by
  rw [← windowsStem_cleaned (baseName name)]
  unfold sanitizeFileName
  simp only
  split
  next hb =>
    rw [(windowsStem_of_isNoName hb).2.2]
    decide
  split
  next hn =>
    rw [(windowsStem_of_isNoName hn).1]
    decide
  split
  next hr =>
    have hd : ∀ stem ∈ unlistedDevices, stem ∉ windowsReservedNames := by decide
    rw [isWindowsReservedName, contains_iff_mem] at hr
    exact iff_of_false (underscore_notMem _) fun hm => hd _ hm hr
  · exact Iff.rfl

lemma Portable.baseName_eq (h : Portable name) : baseName name = name.trim := by
  have hn : normalized name = name := by
    refine (map_congr_left fun c hc => ?_).trans (map_id _)
    rw [if_neg (by simpa using (h.chars c hc).2.1)]
    rfl
  have hl : name.afterLast '/' = name :=
    rtakeWhile_eq_self_iff.mpr fun c hc => by simpa using (h.chars c hc).1
  have hz : ∀ c ∈ name.trim, (c == Char.ofNat 0) = false := by
    intro c hc
    have hm := (dropWhile_sublist _).subset ((List.rdropWhile_prefix _ _).subset hc)
    rw [beq_eq_false_iff_ne]
    rintro rfl
    exact absurd (h.chars _ hm).2.2.1 (by decide)
  rw [baseName, hn, hl, Text.trimMatches, dropWhile_eq_self_iff.mpr, rdropWhile_eq_self_iff.mpr]
  · intro hne
    rw [hz _ (getLast_mem hne)]
    exact Bool.false_ne_true
  · intro hlen
    rw [hz _ (getElem_mem hlen)]
    exact Bool.false_ne_true

lemma trim_underscore (s : Text) : ∃ t, Text.trim ('_' :: s) = '_' :: t := by
  have hd : ('_' :: s).dropWhile Text.isWhitespace = '_' :: s := rfl
  have hne : ('_' :: s).rdropWhile Text.isWhitespace ≠ [] := by
    rw [Ne, rdropWhile_eq_nil_iff]
    exact fun hall => absurd (hall '_' mem_cons_self) (by decide)
  have hp := List.rdropWhile_prefix Text.isWhitespace ('_' :: s)
  rw [Text.trim, Text.trimMatches, hd]
  cases ht : ('_' :: s).rdropWhile Text.isWhitespace with
  | nil => exact absurd ht hne
  | cons c t =>
    rw [ht, cons_prefix_cons] at hp
    exact ⟨t, by rw [hp.1]⟩

/-- What is left of a name that is sanitized twice. -/
lemma windowsStem_twice (name : Text) :
    windowsStem (sanitizeFileName (sanitizeFileName name)) ∈ unlistedDevices ↔
      isWindowsReservedName (cleaned (baseName name)) = false ∧
        windowsStem (cleaned (baseName name)).trim ∈ unlistedDevices := by
  rw [windowsStem_sanitizeFileName, (clean_sanitizeFileName name).baseName_eq]
  unfold sanitizeFileName
  simp only
  split
  next hb =>
    rw [(windowsStem_of_isNoName hb).2.2]
    decide
  split
  next hn =>
    rw [(windowsStem_of_isNoName hn).2.1]
    exact iff_of_false (by decide) fun h => absurd h.2 (by decide)
  split
  next hr =>
    obtain ⟨t, ht⟩ := trim_underscore (cleaned (baseName name))
    rw [ht]
    exact iff_of_false (underscore_notMem t) fun h => by simp [hr] at h
  next hr => simp [hr]

/-- None of the devices that the list leaves out is given: by a segment of a relative path, or by the
name of the header or the URL, which is sanitized twice. -/
def NoDevice (given : Text) : Option Text → Prop
  | some relative => ∀ segment ∈ segments relative,
    windowsStem (baseName segment) ∉ unlistedDevices
  | none => isWindowsReservedName (cleaned (baseName given)) = true ∨
    windowsStem (cleaned (baseName given)).trim ∉ unlistedDevices

end Filename

open Filename

/-! ### The output path -/

structure OutputOptions where
  dir : Text
  out : Option Text := none
  noResume : Bool := false
  allowOverwrite : Bool := false
  autoFileRenaming : Bool := false

structure Disk where
  present : Path → Bool
  /-- Whether the control file of a path is there. -/
  controlled : Path → Bool

namespace OutputOptions

variable (self : OutputOptions)

def namedPath (name : Text) : Option Text → Path
  | some relative => (Path.ofText self.dir).join (sanitizeRelativePath relative)
  | none => (Path.ofText self.dir).join (Path.ofText (sanitizeFileName name))

def resolveOutputPath (disk : Disk) (name : Text) (relativePath : Option Text) : Path :=
  match self.out with
  | some out => (Path.ofText self.dir).join (Path.ofText out)
  | none =>
    let path := self.namedPath name relativePath
    if !self.noResume && disk.controlled path then path
    else if !self.allowOverwrite && self.autoFileRenaming && disk.present path then
      autoRename disk.present path
    else path

/-- The output of `probe`: a collection tells the size, and then the headers are not asked for. -/
def probeOutput (disk : Disk) (url : Text) (knownSize : Option UInt64) (headers : HeaderMap)
    (relativePath : Option Text) : Path :=
  let name := match knownSize with
    | some _ => fromUrl url
    | none => fromUrlAndHeaders url headers
  self.resolveOutputPath disk name relativePath

/-- The name in the header if it is asked for, else the last segment of the URL. -/
def givenName (url : Text) (knownSize : Option UInt64) (headers : HeaderMap) : Text :=
  let inHeader := do
    let cd ← (← headers.get contentDisposition).toStr
    parseContentDisposition (.ofAscii cd)
  (if knownSize.isSome then none else inHeader).getD
    (((url.beforeFirst '?').beforeFirst '#').afterLast '/')

def stemsOf (name : Text) : Option Text → List Text
  | some relative =>
    if (segments relative).filter (!isNoName ·) = [] then [windowsStem download]
    else ((segments relative).filter (!isNoName ·)).map fun s => windowsStem (sanitizeFileName s)
  | none => [windowsStem (sanitizeFileName name)]

lemma below_namedPath (name : Text) (relativePath : Option Text) :
    BelowAs (ofText self.dir) (stemsOf name relativePath) (self.namedPath name relativePath) := by
  cases relativePath with
  | none => exact (ofText_sanitizeFileName_below name).join _
  | some relative => exact (sanitizeRelativePath_below relative).join _

lemma below_resolveOutputPath (disk : Disk) (name : Text) (relativePath : Option Text)
    (h : self.out = none) : BelowAs (.ofText self.dir) (stemsOf name relativePath)
      (self.resolveOutputPath disk name relativePath) := by
  have hp := self.below_namedPath name relativePath
  unfold resolveOutputPath
  simp only [h]
  split
  · exact hp
  · split
    · exact hp.autoRename disk.present
    · exact hp

lemma stemsOf_iff (given : Text) (relativePath : Option Text) :
    (∀ stem ∈ stemsOf (sanitizeFileName given) relativePath, stem ∉ unlistedDevices) ↔
      NoDevice given relativePath := by
  cases relativePath with
  | none =>
    rw [stemsOf, forall_mem_singleton, windowsStem_twice, NoDevice, not_and_or,
      Bool.not_eq_false]
  | some relative =>
    have hs : ∀ segment, isNoName segment → windowsStem (baseName segment) ∉ unlistedDevices := by
      intro segment hn
      simp only [isNoName, Bool.or_eq_true, List.isEmpty_iff, beq_iff_eq] at hn
      rcases hn with (rfl | rfl) | rfl <;> decide
    have hf : (∀ segment ∈ (segments relative).filter (!isNoName ·),
        windowsStem (baseName segment) ∉ unlistedDevices) ↔ NoDevice given (some relative) := by
      simp only [mem_filter, NoDevice, Bool.not_eq_true']
      refine ⟨fun h segment hm => ?_, fun h segment hm => h segment hm.1⟩
      by_cases hn : isNoName segment
      · exact hs segment hn
      · exact h segment ⟨hm, Bool.eq_false_iff.mpr hn⟩
    rw [← hf, stemsOf]
    split
    next hnil =>
      rw [hnil]
      decide
    · simp only [forall_mem_map, windowsStem_sanitizeFileName]

/-- Whatever the server, the link and the collection say, an output lies in the directory under clean
names, and renaming stays beside the path. The names are safe on every system exactly if none is
given that the list of reserved names leaves out. -/
theorem probeOutput_confined_iff (self : OutputOptions) (h : self.out = none) (disk : Disk)
    (url : Text) (knownSize : Option UInt64) (headers : HeaderMap) (relativePath : Option Text) :
    Below (.ofText self.dir) (self.probeOutput disk url knownSize headers relativePath) ∧
      (Confined (.ofText self.dir)
          (self.probeOutput disk url knownSize headers relativePath) ↔
        NoDevice (givenName url knownSize headers) relativePath) ∧
      ∀ (present : Path → Bool) (path parent : Path), path.parent = some parent →
        (autoRename present path).parent = some parent := by
  have hn : self.probeOutput disk url knownSize headers relativePath =
      self.resolveOutputPath disk (sanitizeFileName (givenName url knownSize headers))
        relativePath := by
    have hm : ∀ inHeader : Option Text, (match inHeader with
        | some name => sanitizeFileName name
        | none => fromUrl url) = sanitizeFileName (inHeader.getD
          (((url.beforeFirst '?').beforeFirst '#').afterLast '/')) := by
      rintro (- | name) <;> rfl
    cases knownSize with
    | some size => rfl
    | none => exact congrArg (self.resolveOutputPath disk · relativePath) (hm _)
  have hb := self.below_resolveOutputPath disk
    (sanitizeFileName (givenName url knownSize headers)) relativePath h
  rw [hn]
  exact ⟨hb.below, hb.confined_iff.trans (stemsOf_iff _ _), fun present path parent hp =>
    parent_autoRename present hp⟩

def emptyDisk : Disk := ⟨fun _ => false, fun _ => false⟩

def downloads : OutputOptions := { dir := "/downloads".toList }

def superscriptPort : HeaderMap :=
  ⟨[(contentDisposition, ⟨ascii "attachment; filename*=UTF-8''COM%C2%B9", by decide⟩)]⟩

theorem probeOutput_confined_iff_downloads :
    Confined (.ofText downloads.dir) (downloads.probeOutput emptyDisk "https://h/a".toList none
      ⟨[(contentDisposition, ⟨ascii "attachment; filename=\"..\\nul .txt\"", by decide⟩)]⟩
      none) :=
  (probeOutput_confined_iff downloads rfl emptyDisk _ none _ none).2.1.mpr
    (.inl (by decide +kernel))

theorem superscript_port_kept :
    downloads.out = none ∧ ¬Confined (.ofText downloads.dir)
      (downloads.probeOutput emptyDisk "https://h/a".toList none superscriptPort none) := by
  refine ⟨rfl, ?_⟩
  have hp : downloads.probeOutput emptyDisk "https://h/a".toList none superscriptPort none =
      ofText downloads.dir ++ [⟨"COM¹".toList, by decide⟩].map .normal := by decide +kernel
  rintro ⟨names, -, heq, hs⟩
  rw [hp] at heq
  obtain rfl := map_normal_injective (append_cancel_left heq)
  exact (hs _ mem_cons_self).2 (by decide)

end OutputOptions

end Aioduct.Cli
