import Aioduct.Cookies.Isolation

/-!
# Responses that poison the jar

A `Set-Cookie` line poisons the jar exactly if it asks for a lifetime beyond the last point in
time, or for a date that the conversion cannot cope with.
-/

namespace Aioduct.Cookies

open Wire Http CookieJar

lemma storeLine_poisoned (now : SystemTime) (domain path : Bytes) (jar : CookieJar)
    (value : HeaderValue) :
    (jar.storeLine now domain path value).poisoned ↔
      jar.poisoned ∨ ∃ line, value.toStr = some line ∧ LineOverflows now domain line := by
  obtain ⟨entries, poisoned⟩ := jar
  change _ ↔ _ ∨ ValueOverflows now domain value
  cases poisoned with
  | true => simp [storeLine]
  | false =>
    rcases storeLine_cases now domain path entries value with
      ⟨-, hf, hl⟩ | ⟨cookie, -, hf, hl⟩ | ⟨-, ho, hl⟩
    · simp [hl, hf]
    · simp [hl, hf]
    · simp [hl, ho]

lemma foldl_storeLine_poisoned (now : SystemTime) (domain path : Bytes)
    (values : List HeaderValue) (jar : CookieJar) :
    (values.foldl (CookieJar.storeLine now domain path) jar).poisoned ↔
      jar.poisoned ∨ ∃ value ∈ values, ∃ line, value.toStr = some line ∧
        LineOverflows now domain line := by
  induction values generalizing jar with
  | nil => simp
  | cons value values ih =>
    rw [List.foldl_cons, ih, storeLine_poisoned, or_assoc]
    simp only [List.mem_cons, exists_eq_or_imp]

/-- Storing a response panics exactly if one of its readable lines overflows; from then on the jar
never changes and sends nothing, whatever is called for whichever host. -/
theorem store_poisons_iff (now : SystemTime) (domain path : Bytes) (headers : HeaderMap)
    (jar : CookieJar) (hjar : jar.poisoned = false) :
    ((jar.storeFromResponse now domain path headers).poisoned = true ↔
        ∃ value ∈ headers.getAll .setCookie, ∃ line, value.toStr = some line ∧
          LineOverflows now domain line) ∧
      ((jar.storeFromResponse now domain path headers).poisoned = true →
        ∀ (calls : List JarCall) (order : Entries) (request : CookieRequest),
          (calls.foldl CookieJar.call
            (jar.storeFromResponse now domain path headers)).matchingCookies order request = []) := by
  constructor
  · rw [storeFromResponse, foldl_storeLine_poisoned, hjar]
    simp
  · intro hp calls order request
    rw [List.foldl_fixed' (call_of_poisoned hp), matchingCookies, if_pos hp]

def withLifetimes : HeaderMap :=
  responseWith "a=1; Max-Age=60; Expires=Sun, 06 Nov 1994 08:49:37 GMT" (by decide)

/-- Ordinary lifetimes do not poison an empty jar. -/
theorem store_poisons_iff_sample :
    ({} : CookieJar).poisoned = false ∧
      ¬∃ value ∈ withLifetimes.getAll .setCookie, ∃ line,
        value.toStr = some line ∧ LineOverflows sampleTime (ascii "example.com") line := by
  refine ⟨rfl, fun ho => ?_⟩
  have hp := (store_poisons_iff sampleTime (ascii "example.com") (ascii "/")
    withLifetimes {} rfl).1.mpr ho
  revert hp
  decide

/-- The greatest lifetime that `Max-Age` can hold poisons the jar, and so does day zero. -/
theorem max_age_poisons_jar :
    (({} : CookieJar).storeFromResponse sampleTime (ascii "evil.test") (ascii "/")
        (responseWith "b=2; Max-Age=9223372036854775807" (by decide))).poisoned = true ∧
      (({} : CookieJar).storeFromResponse sampleTime (ascii "evil.test") (ascii "/")
        (responseWith "b=2; Expires=Thu, 00 Jan 2026 00:00:00 GMT" (by decide))).poisoned =
          true := by
  constructor <;> decide

end Aioduct.Cookies
