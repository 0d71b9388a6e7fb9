import Aioduct.Client.Frame
import Aioduct.Cookies.Isolation

/-!
# The parts of the `Cookie` line

The jar adds its pairs at the end of the `Cookie` line, and a replay takes them out again.
-/

namespace Aioduct.Client

open Wire Http Cookies List Utf8

variable {t sep part : Bytes} {l parts out own : List Bytes}

def IsText (s : Bytes) : Prop := ∀ b ∈ s, isTextByte b = true

variable {s : Bytes} {selected : List Cookie} {headers : MarkedHeaderMap}

lemma IsText.ascii (h : IsText s) : ∀ b ∈ s, b < 128 := by
  have hall : ∀ b : UInt8, isTextByte b → b < 128 := by
    decide +kernel
  exact fun b hb => hall b (h b hb)

lemma IsText.append (hs : IsText s) (ht : IsText t) : IsText (s ++ t) := by
  intro b hb
  rcases mem_append.mp hb with hb | hb
  · exact hs b hb
  · exact ht b hb

lemma isText_intercalate (hsep : IsText sep)
    (hl : ∀ s ∈ l, IsText s) : IsText (sep.intercalate l) := by
  intro b hb
  rcases mem_intercalate hb with hb | ⟨s, hs, hb⟩
  · exact hsep b hb
  · exact hl s hs b hb

lemma isText_separator : IsText (ascii "; ") :=
  all_eq_true.mp (by decide)

lemma IsText.fromStr (h : IsText s) :
    ∃ value, HeaderValue.fromStr s = some value ∧ value.bytes = s ∧ value.toStr = some s := by
  have hbyt : ∀ b : UInt8, isTextByte b → isValueByte b := by
    decide +kernel
  have hv : s.all isValueByte := all_eq_true.mpr fun b hb => hbyt b (h b hb)
  refine ⟨⟨s, hv⟩, dif_pos hv, rfl, if_pos ?_⟩
  exact all_eq_true.mpr h

structure IsPart (part : Bytes) : Prop where
  separated : byte ';' ∉ part
  trimmed : Utf8.trimText part = part
  nonempty : part ≠ []
  text : IsText part

lemma isPart_of_mem (hs : IsText s) (h : part ∈ cookieParts s) : IsPart part := by
  simp only [cookieParts, mem_filter, mem_map, Bool.not_eq_true', isEmpty_eq_false_iff] at h
  obtain ⟨⟨piece, hp, rfl⟩, hne⟩ := h
  have ht : IsText piece := fun b hb => hs b (mem_of_mem_splitOn hp hb)
  refine ⟨fun hm => notMem_of_mem_splitOn hp (mem_of_mem_trimText hm), ?_, hne,
    fun b hb => ht b (mem_of_mem_trimText hb)⟩
  have htri : IsText (trimText piece) := fun b hb => ht b (mem_of_mem_trimText hb)
  rw [trimText_of_ascii htri.ascii, trimText_of_ascii ht.ascii, trim_trim]

lemma cookieParts_nil : cookieParts [] = [] := by decide

lemma cookieParts_of_isPart (h : IsPart part) : cookieParts part = [part] := by
  have hs : part.splitOn (byte ';') = [part] := by
    have hp : ∀ piece ∈ [part], byte ';' ∉ piece :=
      fun piece hpie => mem_singleton.mp hpie ▸ h.separated
    have hj := splitOn_intercalate (byte ';') hp (cons_ne_nil _ _)
    simpa using hj
  have hne : part.isEmpty = false := isEmpty_eq_false_iff.mpr h.nonempty
  simp [cookieParts, hs, h.trimmed, hne]

lemma cookieParts_space (hs : IsText s) : cookieParts (byte ' ' :: s) = cookieParts s := by
  have hspa : (byte ' ' == byte ';') = false := by decide
  have hcons : (byte ' ' :: s).splitOn (byte ';') =
      (s.splitOn (byte ';')).modifyHead (List.cons (byte ' ')) := by
    rw [splitOn_eq_splitOnP, splitOn_eq_splitOnP, splitOnP_cons_eq_if_modifyHead,
      hspa, if_neg Bool.false_ne_true]
  have hpie : ∀ piece ∈ s.splitOn (byte ';'), IsText piece :=
    fun piece hp b hb => hs b (mem_of_mem_splitOn hp hb)
  rw [cookieParts, cookieParts, hcons]
  cases hspl : s.splitOn (byte ';') with
  | nil => exact absurd hspl (splitOn_ne_nil _ _)
  | cons piece pieces =>
    have hp : IsText piece := hpie piece (hspl ▸ mem_cons_self)
    have hl : IsText (byte ' ' :: piece) := by
      intro b hb
      rcases mem_cons.mp hb with rfl | hb
      · decide
      · exact hp b hb
    rw [modifyHead_cons, map_cons, map_cons,
      trimText_of_ascii hl.ascii, trimText_of_ascii hp.ascii,
      trim_cons (by decide)]

lemma cookieParts_append (s : Bytes) (ht : IsText t) :
    cookieParts (s ++ ascii "; " ++ t) = cookieParts s ++ cookieParts t := by
  have hj : s ++ ascii "; " ++ t = s ++ byte ';' :: (byte ' ' :: t) := by
    rw [append_assoc]
    rfl
  rw [← cookieParts_space ht, hj]
  simp only [cookieParts, splitOn_append_cons_self, map_append, filter_append]

lemma cookieParts_intercalate (h : ∀ part ∈ parts, IsPart part) :
    cookieParts ((ascii "; ").intercalate parts) = parts := by
  induction parts with
  | nil => exact cookieParts_nil
  | cons part parts ih =>
    have hpa := h part mem_cons_self
    have hpar := fun p hp => h p (mem_cons_of_mem _ hp)
    cases parts with
    | nil => simpa using cookieParts_of_isPart hpa
    | cons next parts =>
      have ht : IsText ((ascii "; ").intercalate (next :: parts)) :=
        isText_intercalate isText_separator fun p hp => (hpar p hp).text
      rw [intercalate_cons_cons, cookieParts_append _ ht, cookieParts_of_isPart hpa, ih hpar]
      rfl

lemma cookieParts_ne_nil (hs : IsText s) {b : UInt8} (hb : b ∈ s) (hsep : b ≠ byte ';')
    (hspa : isWhitespace b = false) : cookieParts s ≠ [] := by
  have hj : [byte ';'].intercalate (s.splitOn (byte ';')) = s :=
    intercalate_splitOn (byte ';')
  rw [← hj] at hb
  rcases mem_intercalate hb with hb | ⟨piece, hp, hb⟩
  · exact absurd (mem_singleton.mp hb) hsep
  have ht : IsText piece := fun c hc => hs c (mem_of_mem_splitOn hp hc)
  have hm : b ∈ trimText piece := by
    rw [trimText_of_ascii ht.ascii]
    exact mem_trim hspa hb
  apply ne_nil_of_mem (a := trimText piece)
  simp only [cookieParts, mem_filter, mem_map, Bool.not_eq_true', isEmpty_eq_false_iff]
  exact ⟨⟨piece, hp, rfl⟩, ne_nil_of_mem hm⟩

lemma foldl_removeLast (parts out : List Bytes) :
    out.foldl removeLast parts = (parts.reverse.diff out).reverse := by
  induction out generalizing parts with
  | nil => simp
  | cons part out ih => simp [ih, removeLast]

lemma diff_of_perm {front back : List Bytes} (h : front.Perm out) :
    (front ++ back).diff out = back := by
  induction out generalizing front with
  | nil =>
    obtain rfl := perm_nil.mp h
    rfl
  | cons part out ih =>
    have hm : part ∈ front := h.mem_iff.mpr mem_cons_self
    rw [diff_cons, erase_append_left _ hm]
    apply ih
    have he := h.erase part
    rwa [erase_cons_head] at he

lemma foldl_removeLast_append (own parts : List Bytes) :
    parts.foldl removeLast (own ++ parts) = own := by
  rw [foldl_removeLast, reverse_append, diff_of_perm (reverse_perm parts), reverse_reverse]

def cookieText (headers : MarkedHeaderMap) : Bytes :=
  ((headers.get .cookie).bind fun value => value.value.toStr).getD []

def fieldParts (headers : MarkedHeaderMap) : List Bytes := cookieParts (cookieText headers)

def jarParts (selected : List Cookie) : List Bytes := cookieParts (cookieHeader selected)

lemma isText_cookieText (headers : MarkedHeaderMap) : IsText (cookieText headers) := by
  unfold cookieText
  cases ht : (headers.get .cookie).bind fun value => value.value.toStr with
  | none => exact fun b hb => absurd hb not_mem_nil
  | some text =>
    obtain ⟨value, -, hv⟩ := Option.bind_eq_some_iff.mp ht
    exact isTextByte_of_toStr hv

/-- The `Cookie` line of the second map is one readable line with the given parts. -/
def SetsParts (headers headers' : MarkedHeaderMap) (parts : List Bytes) : Prop :=
  ∃ value text, headers' = headers.insert .cookie ⟨value, false⟩ ∧ value.toStr = some text ∧
    cookieParts text = parts

lemma SetsParts.fieldParts {headers' : MarkedHeaderMap}
    (h : SetsParts headers headers' parts) : fieldParts headers' = parts := by
  obtain ⟨value, text, rfl, ht, hp⟩ := h
  simp [Client.fieldParts, cookieText, MultiMap.get, ht, hp]

lemma addCookies_nil (headers : MarkedHeaderMap) : addCookies [] headers = headers := rfl

lemma jarParts_nil : jarParts [] = [] := cookieParts_nil

section

variable (h : ReadableCookies selected)

include h

lemma isText_cookieHeader : IsText (cookieHeader selected) := by
  apply isText_intercalate isText_separator
  intro pair hp
  obtain ⟨c, hc, rfl⟩ := mem_map.mp hp
  have he : IsText (ascii "=") := all_eq_true.mp (by decide)
  exact (IsText.append (h c hc).1 he).append (h c hc).2

lemma jarParts_eq_nil : jarParts selected = [] ↔ selected = [] := by
  constructor
  · intro hp
    cases selected with
    | nil => rfl
    | cons c selected =>
      have hm : byte '=' ∈ cookieHeader (c :: selected) := by
        refine mem_intercalate_of_mem (s := c.pair) mem_cons_self ?_
        simp [Cookie.pair, ascii]
      exact absurd hp (cookieParts_ne_nil (isText_cookieHeader h) hm (by decide) (by decide))
  · rintro rfl
    exact cookieParts_nil

lemma contributionOf_of_ne_nil (hne : selected ≠ []) :
    ∃ value, contributionOf selected = some value ∧ value.bytes = cookieHeader selected ∧
      value.toStr = some (cookieHeader selected) := by
  obtain ⟨value, hf, hb, hs⟩ := (isText_cookieHeader h).fromStr
  have hempty : selected.isEmpty = false := isEmpty_eq_false_iff.mpr hne
  exact ⟨value, by rw [contributionOf, hempty, if_neg Bool.false_ne_true, hf], hb, hs⟩

lemma setsParts_addCookies (hne : selected ≠ []) (headers : MarkedHeaderMap) :
    SetsParts headers (addCookies selected headers) (fieldParts headers ++ jarParts selected) := by
  obtain ⟨value, hc, hb, hs⟩ := contributionOf_of_ne_nil h hne
  simp only [addCookies, hc, Option.elim_some, mergeCookieHeader, hb]
  split
  next existing he =>
    have ht : cookieText headers = existing.value.toStr.getD [] := by
      simp only [cookieText, he, Option.bind_some]
    have hmer : IsText (mergedCookieText existing (cookieHeader selected)) := by
      have hold := isText_cookieText headers
      rw [ht] at hold
      exact (hold.append isText_separator).append (isText_cookieHeader h)
    obtain ⟨merged, hf, -, hm⟩ := hmer.fromStr
    rw [hf]
    refine ⟨merged, _, rfl, hm, ?_⟩
    rw [fieldParts, ht]
    exact cookieParts_append _ (isText_cookieHeader h)
  rename_i hnone
  refine ⟨value, _, rfl, hs, ?_⟩
  have ht : cookieText headers = [] := by simp [cookieText, hnone]
  rw [fieldParts, ht, cookieParts_nil, nil_append, jarParts]

lemma fieldParts_addCookies (headers : MarkedHeaderMap) :
    fieldParts (addCookies selected headers) = fieldParts headers ++ jarParts selected := by
  by_cases hne : selected = []
  · rw [hne, addCookies_nil, jarParts_nil, append_nil]
  · exact (setsParts_addCookies h hne headers).fieldParts

lemma removeCookies_cases (hp : fieldParts headers = own ++ jarParts selected) :
    (removeCookies selected headers = headers ∧ fieldParts headers = own) ∨
      (removeCookies selected headers = headers.remove .cookie ∧ own = []) ∨
      SetsParts headers (removeCookies selected headers) own := by
  by_cases hne : selected = []
  · subst hne
    rw [jarParts_nil, append_nil] at hp
    exact .inl ⟨rfl, hp⟩
  obtain ⟨value, hc, -, hs⟩ := contributionOf_of_ne_nil h hne
  simp only [removeCookies, hc, Option.elim_some, removeCookieContribution, hs]
  cases he : (headers.get .cookie).bind fun value => value.value.toStr with
  | none =>
    -- without a readable line there are no parts at all
    have hnil : fieldParts headers = [] := by
      simp only [fieldParts, cookieText, he, Option.getD_none, cookieParts_nil]
    rw [hnil] at hp
    exact .inl ⟨rfl, hnil.trans (append_eq_nil_iff.mp hp.symm).1.symm⟩
  | some existing =>
    have ht : cookieText headers = existing := by
      simp only [cookieText, he, Option.getD_some]
    have ho : cookieParts existing = own ++ jarParts selected := by
      rw [← hp, fieldParts, ht]
    have hr : (cookieParts (cookieHeader selected)).foldl removeLast (cookieParts existing) =
        own := by
      rw [ho]
      exact foldl_removeLast_append own (jarParts selected)
    simp only [hr]
    by_cases hempty : own = []
    · exact .inr (.inl (by simp [hempty]))
    have hi : ∀ part ∈ own, IsPart part := by
      intro part hpar
      apply isPart_of_mem (isText_cookieText headers)
      rw [ht, ho]
      exact mem_append_left _ hpar
    have hjoi : IsText ((ascii "; ").intercalate own) :=
      isText_intercalate isText_separator fun part hpar => (hi part hpar).text
    obtain ⟨joined, hf, -, hj⟩ := hjoi.fromStr
    have hne' : own.isEmpty = false := isEmpty_eq_false_iff.mpr hempty
    simp only [hne', Bool.false_eq_true, if_false, hf]
    exact .inr (.inr ⟨joined, _, rfl, hj, cookieParts_intercalate hi⟩)

lemma fieldParts_removeCookies (hp : fieldParts headers = own ++ jarParts selected) :
    fieldParts (removeCookies selected headers) = own := by
  rcases removeCookies_cases h hp with ⟨heq, ho⟩ | ⟨heq, rfl⟩ | hs
  · rw [heq, ho]
  · simp [heq, fieldParts, cookieText, MultiMap.get, cookieParts_nil]
  · exact hs.fieldParts

end

def cookiePairs (headers : MarkedHeaderMap) : List Bytes :=
  (headers.getAll .cookie).flatMap fun line => cookieParts line.value.bytes

/-- Only the first `Cookie` line has pairs, and it is text. -/
def PairsInFirstLine (headers : MarkedHeaderMap) : Prop :=
  (∀ line ∈ (headers.getAll .cookie).tail, cookieParts line.value.bytes = []) ∧
    ∀ line ∈ headers.get .cookie, line.value.toStr = none → cookieParts line.value.bytes = []

lemma cookiePairs_eq_fieldParts_iff :
    cookiePairs headers = fieldParts headers ↔ PairsInFirstLine headers := by
  unfold cookiePairs fieldParts cookieText PairsInFirstLine MultiMap.get
  cases headers.getAll .cookie with
  | nil => simp [cookieParts_nil]
  | cons line lines =>
    cases ht : line.value.toStr with
    | none => simp [ht, cookieParts_nil, and_comm]
    | some text => simp [ht, HeaderValue.toStr_eq_some ht]

lemma SetsParts.cookiePairs {headers' : MarkedHeaderMap}
    (h : SetsParts headers headers' parts) : cookiePairs headers' = parts := by
  rw [← h.fieldParts, cookiePairs_eq_fieldParts_iff]
  obtain ⟨value, text, rfl, ht, -⟩ := h
  simp [PairsInFirstLine, MultiMap.get, ht]

lemma cookiePairs_removeCookies_addCookies (h : ReadableCookies selected) (hne : selected ≠ []) :
    cookiePairs (removeCookies selected (addCookies selected headers)) = fieldParts headers := by
  have ha := setsParts_addCookies h hne headers
  rcases removeCookies_cases h ha.fieldParts with ⟨heq, ho⟩ | ⟨heq, ho⟩ | hs
  · rw [heq, ha.cookiePairs, ← ha.fieldParts, ho]
  · simp [heq, ho, Client.cookiePairs]
  · exact hs.cookiePairs

/-- The jar leaves the caller's pairs in front of its own, and they are what is left when its
contribution is taken out. -/
def KeepsPairs (jar : CookieJar) (order : Entries) (request : CookieRequest)
    (headers : MarkedHeaderMap) : Prop :=
  let applied := jar.applyToRequestTracking order request headers
  cookiePairs headers <+: cookiePairs applied.1 ∧
    cookiePairs (applied.2.elim applied.1 (removeCookieContribution applied.1)) =
      cookiePairs headers

theorem keepsPairs_iff {calls : List JarCall} {order : Entries}
    (horder : order.Perm (Cookies.run calls).entries) (request : CookieRequest)
    (headers : MarkedHeaderMap) :
    KeepsPairs (Cookies.run calls) order request headers ↔
      (Cookies.run calls).matchingCookies order request = [] ∨ PairsInFirstLine headers := by
  have ha := applyToRequestTracking_eq (Cookies.run calls) order request headers
  generalize hs : (Cookies.run calls).matchingCookies order request = selected at ha
  have hr : ReadableCookies selected := by
    have he : ReadableEntries (Cookies.run calls).entries :=
      readableEntries_calls (fun _ h => absurd h not_mem_nil) calls
    exact hs ▸ readableCookies_matchingCookies he horder request
  simp only [KeepsPairs, ha]
  change _ <+: _ ∧ cookiePairs (removeCookies selected (addCookies selected headers)) = _ ↔ _
  by_cases hne : selected = []
  · subst hne
    simp [addCookies_nil, removeCookies, contributionOf]
  rw [cookiePairs_removeCookies_addCookies hr hne,
    (setsParts_addCookies hr hne headers).cookiePairs, ← cookiePairs_eq_fieldParts_iff]
  constructor
  · exact fun h => .inr h.2.symm
  · intro h
    have heq := h.resolve_left hne
    exact ⟨heq ▸ prefix_append _ _, heq.symm⟩

def cookieLines (lines : List String) : MarkedHeaderMap :=
  ⟨lines.filterMap fun line =>
    (HeaderValue.fromStr (ascii line)).map fun value => (.cookie, ⟨value, false⟩)⟩

/-- The jar adds the pair that the caller wrote, and takes its own out again. -/
theorem keepsPairs_sample :
    KeepsPairs (Cookies.run [sampleCall]) sampleEntries sampleRequest
      (cookieLines ["a=1; b=2"]) := by
  refine (keepsPairs_iff (.of_eq ?_) _ _).mpr (.inr ?_)
  · decide
  · constructor <;> decide

/-- The second line of the caller is gone from the request. -/
theorem second_line_is_lost :
    cookiePairs (cookieLines ["b=2", "c=3"]) = [ascii "b=2", ascii "c=3"] ∧
      cookiePairs ((Cookies.run [sampleCall]).applyToRequestTracking sampleEntries sampleRequest
        (cookieLines ["b=2", "c=3"])).1 = [ascii "b=2", ascii "a=1"] ∧
      ¬KeepsPairs (Cookies.run [sampleCall]) sampleEntries sampleRequest
        (cookieLines ["b=2", "c=3"]) := by
  unfold KeepsPairs
  decide

end Aioduct.Client
