namespace StatusShell

/-- A queue of items for each program.  Programs that were never mentioned have
an empty queue. -/
structure Queues (α : Type) where
  entries : List (String × List α)
  deriving DecidableEq, Repr

namespace Queues

variable {α : Type}

/-- No program has been mentioned. -/
def empty : Queues α := ⟨[]⟩

/-- Replace the items that wait for a program, adding an entry if it has none. -/
def replace (program : String) (items : List α) :
    List (String × List α) → List (String × List α)
  | [] => [(program, items)]
  | (name, old) :: entries =>
      if name = program then (name, items) :: entries
      else (name, old) :: replace program items entries

/-- The items waiting for a program. -/
def queue (queues : Queues α) (program : String) : List α :=
  (queues.entries.lookup program).getD []

/-- The program has been mentioned. -/
def mentions (queues : Queues α) (program : String) : Bool :=
  (queues.entries.lookup program).isSome

/-- Add items to the end of the queue of a program. -/
def enqueue (queues : Queues α) (program : String) (items : List α) : Queues α :=
  ⟨replace program (queues.queue program ++ items) queues.entries⟩

/-- Take the first item that waits for a program, if there is one. -/
def dequeue (queues : Queues α) (program : String) : Option α × Queues α :=
  match queues.queue program with
  | [] => (none, queues)
  | item :: items => (some item, ⟨replace program items queues.entries⟩)

theorem lookup_replace (program other : String) (items : List α)
    (entries : List (String × List α)) :
    (replace program items entries).lookup other =
      if other = program then some items else entries.lookup other := by
  induction entries with
  | nil =>
      by_cases hother : other = program
      · simp [replace, hother]
      · simp [replace, List.lookup_cons, beq_false_of_ne hother, hother]
  | cons entry entries ih =>
      obtain ⟨name, old⟩ := entry
      rw [replace]
      by_cases hname : name = program
      · subst hname
        by_cases hother : other = name
        · simp [hother]
        · simp [List.lookup_cons, beq_false_of_ne hother, hother]
      · rw [if_neg hname, List.lookup_cons, List.lookup_cons, ih]
        by_cases hother : other = name
        · simp [hother, hname]
        · simp [beq_false_of_ne hother]

theorem queue_enqueue (queues : Queues α) (program other : String) (items : List α) :
    (queues.enqueue program items).queue other =
      if other = program then queues.queue program ++ items else queues.queue other := by
  by_cases h : other = program <;> simp [enqueue, queue, lookup_replace, h]

theorem dequeue_fst (queues : Queues α) (program : String) :
    (queues.dequeue program).1 = (queues.queue program).head? := by
  unfold dequeue
  cases queues.queue program <;> rfl

theorem queue_dequeue (queues : Queues α) (program other : String) :
    (queues.dequeue program).2.queue other =
      if other = program then (queues.queue program).tail else queues.queue other := by
  unfold dequeue
  cases hq : queues.queue program with
  | nil =>
      by_cases h : other = program
      · simp [h, hq]
      · simp [h]
  | cons item items =>
      by_cases h : other = program <;> simp [queue, lookup_replace, h]

end Queues

end StatusShell
