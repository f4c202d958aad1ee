import Mathlib.Data.List.Basic

/-!
# `asyncio.Queue`

The operations of a bounded queue that never suspend, together with the count behind
`task_done` and `join`: the items put for which no `task_done` has been called yet.
-/

namespace Asyncio

structure TaskQueue (ι : Type) where
  maxsize : Nat
  items : List ι
  unfinished : Nat

namespace TaskQueue

variable {ι : Type}

/-- `Queue(maxsize=...)`. -/
def new (maxsize : Nat) : TaskQueue ι := ⟨maxsize, [], 0⟩

/-- `full`; a queue of size zero is unbounded. -/
def full (q : TaskQueue ι) : Bool := 0 < q.maxsize && q.maxsize ≤ q.items.length

/-- `put_nowait`; `none` is `QueueFull`. -/
def putNowait (q : TaskQueue ι) (i : ι) : Option (TaskQueue ι) :=
  if q.full then none
  else some { q with items := q.items ++ [i], unfinished := q.unfinished + 1 }

/-- `get_nowait`; `none` is `QueueEmpty`. -/
def getNowait (q : TaskQueue ι) : Option (ι × TaskQueue ι) :=
  match q.items with
  | [] => none
  | i :: rest => some (i, { q with items := rest })

/-- `task_done`; `none` is the `ValueError` for a call too many. -/
def taskDone (q : TaskQueue ι) : Option (TaskQueue ι) :=
  if q.unfinished = 0 then none else some { q with unfinished := q.unfinished - 1 }

variable {q q' : TaskQueue ι} {i : ι}

theorem putNowait_eq_some (h : q.putNowait i = some q') :
    q' = { q with items := q.items ++ [i], unfinished := q.unfinished + 1 } := by
  unfold putNowait at h
  split at h
  · cases h
  · exact (Option.some.inj h).symm

theorem getNowait_eq_some (h : q.getNowait = some (i, q')) :
    q.items = i :: q'.items ∧ q'.unfinished = q.unfinished := by
  unfold getNowait at h
  split at h
  · cases h
  · rename_i rest hitems
    cases h
    exact ⟨hitems, rfl⟩

theorem taskDone_eq_some (h : q.taskDone = some q') :
    q'.items = q.items ∧ q'.unfinished + 1 = q.unfinished := by
  unfold taskDone at h
  split at h
  · cases h
  · cases h
    refine ⟨rfl, ?_⟩
    dsimp only
    omega

theorem taskDone_eq_none (h : q.taskDone = none) : q.unfinished = 0 := by
  unfold taskDone at h
  split at h
  · assumption
  · cases h

end TaskQueue

end Asyncio
