/-!
The queue of a serial context: tasks in the order in which they were put in, and whether more may
come.
-/

namespace Effects

structure SerialQueue (τ : Type) where
  tasks : List τ
  closed : Bool

namespace SerialQueue

variable {τ : Type}

def new : SerialQueue τ := ⟨[], false⟩

def push (task : τ) (q : SerialQueue τ) : SerialQueue τ := { q with tasks := q.tasks ++ [task] }

def close (q : SerialQueue τ) : SerialQueue τ := { q with closed := true }

def next? (q : SerialQueue τ) : Option (τ × SerialQueue τ) :=
  match q.tasks with
  | [] => none
  | task :: rest => some (task, { q with tasks := rest })

/-- The worker ends only when nothing is left and nothing can come. -/
def finished (q : SerialQueue τ) : Bool := q.tasks.isEmpty && q.closed

end SerialQueue
end Effects
