import Aioduct.Sse.Decoder

/-!
# What an event stream means

The events of a whole stream, read line by line.
-/

namespace Aioduct.Sse

open Wire List

variable {block ls : List Bytes}

/-- The name and the value of a field line; comments and empty lines have none. -/
def fieldOf (line : Bytes) : Option (Bytes × Bytes) :=
  if line.isEmpty || line.head? == some (byte ':') then none
  else
    match splitOnceColon line with
    | some (name, value) => some (name, stripLeadingSpace value)
    | none => some (line, [])

def fieldsOf (block : List Bytes) : List (Bytes × Bytes) :=
  block.filterMap fun line => fieldOf (Utf8.lossy line)

def valuesOf (name : Bytes) (fields : List (Bytes × Bytes)) : List Bytes :=
  (fields.filter fun field => field.1 == name).map Prod.snd

variable (fields : List (Bytes × Bytes))

def eventOf : Option Bytes := (valuesOf (ascii "event") fields).getLast?

def dataOf : List Bytes := valuesOf (ascii "data") fields

def idOf : Option Bytes :=
  ((valuesOf (ascii "id") fields).filter fun value => !value.contains 0).getLast?

/-- The last interval that is a string of digits, if it fits. -/
def retryOf : Option UInt64 :=
  ((valuesOf (ascii "retry") fields).filter fun value => !value.isEmpty && value.all isDigit)
    |>.getLast?.bind parseInterval

variable (lastId : Bytes)

def idAfter (fields : List (Bytes × Bytes)) : Bytes := (idOf fields).getD lastId

/-- A block with data is a message; one without is an interval or nothing. -/
def dispatchBlock (fields : List (Bytes × Bytes)) : List SseEvent :=
  if (dataOf fields).isEmpty then ((retryOf fields).map SseEvent.retry).toList
  else
    let data := (ascii "\n").intercalate (dataOf fields)
    [.message ⟨(eventOf fields).getD (ascii "message"), data, idAfter lastId fields⟩]

def dispatch (lastId : Bytes) : List (List Bytes) → List SseEvent
  | [] => []
  | block :: blocks =>
    let fields := fieldsOf block
    dispatchBlock lastId fields ++ dispatch (idAfter lastId fields) blocks

/-- The blocks that an empty line ends, the first one continuing `current`. -/
def blocksFrom (current : List Bytes) : List Bytes → List (List Bytes)
  | [] => []
  | line :: rest =>
    if line.isEmpty then current :: blocksFrom [] rest else blocksFrom (current ++ [line]) rest

/-- The events of a text, with `lastId` in force at its start. -/
def eventsFrom (text : Bytes) : List SseEvent := dispatch lastId (blocksFrom [] (lines text))

def dropBom (stream : Bytes) : Bytes := if bom.isPrefixOf stream then stream.drop 3 else stream

def referenceEvents (stream : Bytes) : List SseEvent := eventsFrom [] (dropBom stream)

lemma blocksFrom_append (hb : ∀ line ∈ block, line ≠ []) (current rest : List Bytes) :
    blocksFrom current (block ++ rest) = blocksFrom (current ++ block) rest := by
  induction block generalizing current with
  | nil => simp
  | cons line block ih =>
    have hlin : line.isEmpty = false := by simpa using hb line (by simp)
    rw [cons_append, blocksFrom, hlin, if_neg (by simp), ih (fun l hl => hb l (by simp [hl]))]
    simp

@[simp]
lemma fieldsOf_nil : fieldsOf [] = [] := rfl

@[simp]
lemma fieldsOf_nil_cons (block : List Bytes) : fieldsOf ([] :: block) = fieldsOf block := by
  simp [fieldsOf, fieldOf, Utf8.lossy, Utf8.lossyFrom]

@[simp]
lemma dispatchBlock_nil : dispatchBlock lastId [] = [] := rfl

@[simp]
lemma idAfter_nil : idAfter lastId [] = lastId := rfl

lemma dispatch_nil_cons (blocks : List (List Bytes)) :
    dispatch lastId ([] :: blocks) = dispatch lastId blocks := by simp [dispatch]

/-- A first line that is empty adds nothing to a block. -/
lemma dispatch_append (hb : ∀ line ∈ block.tail, line ≠ [])
    (lastId : Bytes) (rest : List Bytes) : ∃ current, fieldsOf current = fieldsOf block ∧
      dispatch lastId (blocksFrom [] (block ++ rest)) =
        dispatch lastId (blocksFrom current rest) := by
  cases block with
  | nil => exact ⟨[], rfl, rfl⟩
  | cons line block =>
    rw [tail_cons] at hb
    by_cases hl : line = []
    · subst hl
      refine ⟨block, (fieldsOf_nil_cons block).symm, ?_⟩
      rw [cons_append, blocksFrom, isEmpty_nil, if_pos rfl, dispatch_nil_cons,
        blocksFrom_append hb, nil_append]
    · refine ⟨line :: block, rfl, ?_⟩
      rw [blocksFrom_append (forall_mem_cons.mpr ⟨hl, hb⟩), nil_append]

lemma dispatch_block (hb : ∀ line ∈ block.tail, line ≠ [])
    (lastId : Bytes) (rest : List Bytes) :
    dispatch lastId (blocksFrom [] (block ++ [] :: rest)) =
      dispatchBlock lastId (fieldsOf block) ++
        dispatch (idAfter lastId (fieldsOf block)) (blocksFrom [] rest) := by
  obtain ⟨current, hf, hd⟩ := dispatch_append hb lastId ([] :: rest)
  rw [hd, ← hf]
  rfl

lemma dispatch_unfinished (hls : ∀ line ∈ ls.tail, line ≠ [])
    (lastId : Bytes) : dispatch lastId (blocksFrom [] ls) = [] := by
  obtain ⟨current, -, hd⟩ := dispatch_append hls lastId []
  rw [append_nil] at hd
  exact hd

lemma eventsFrom_ending {e rest : Bytes} (he : IsEnding e rest) (lastId : Bytes) :
    eventsFrom lastId (e ++ rest) = eventsFrom lastId rest := by
  have hl := lines_line unbroken_nil he
  rw [nil_append] at hl
  rw [eventsFrom, hl, blocksFrom, isEmpty_nil, if_pos rfl, dispatch_nil_cons]
  rfl

end Aioduct.Sse
