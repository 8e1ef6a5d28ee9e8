/-!
The timer: tasks by sequence number, and a heap of deadlines that may still hold entries whose task
is gone. Of the entries that are due the least one comes first, by deadline and then by sequence
number.
-/

namespace Effects

structure Timer (τ : Type) where
  next : Nat
  tasks : List (Nat × τ)
  deadlines : List (Nat × Nat)

namespace Timer

variable {τ : Type}

def new : Timer τ := ⟨0, [], []⟩

/-- Entries without a task that a removal leaves in the heap. -/
def slack : Nat := 32

/-- The first instant that cannot be expressed. -/
def horizon : Nat := 9223372036854775808000000000

def instant? (now delay : Nat) : Option Nat :=
  if now + delay < horizon then some (now + delay) else none

def before (a b : Nat × Nat) : Bool := a.1 < b.1 || (a.1 == b.1 && a.2 < b.2)

def insert (entry : Nat × Nat) : List (Nat × Nat) → List (Nat × Nat)
  | [] => [entry]
  | e :: rest => if before entry e then entry :: e :: rest else e :: insert entry rest

/-- A task whose delay is no instant is kept, and never runs. -/
def push (now delay : Nat) (task : τ) (t : Timer τ) : Timer τ × Nat :=
  ({ next := t.next + 1
     tasks := (t.next, task) :: t.tasks
     deadlines :=
       match instant? now delay with
       | some deadline => insert (deadline, t.next) t.deadlines
       | none => t.deadlines },
   t.next)

def pending (t : Timer τ) (seq : Nat) : Bool := t.tasks.any (·.1 == seq)

def remove (seq : Nat) (t : Timer τ) : Timer τ :=
  if t.pending seq then
    let tasks := t.tasks.filter (·.1 != seq)
    if t.deadlines.length > 2 * tasks.length + slack then
      { t with tasks, deadlines := t.deadlines.filter fun e => tasks.any (·.1 == e.2) }
    else { t with tasks }
  else t

def nextDeadline? (t : Timer τ) : Option Nat := t.deadlines.head?.map (·.1)

/-- Takes out the first entry if it is due, with its task if there still is one. -/
def fire? (now : Nat) (t : Timer τ) : Option (Timer τ × Option τ) :=
  match t.deadlines with
  | [] => none
  | (deadline, seq) :: rest =>
      if deadline ≤ now then
        some ({ t with
            deadlines := rest
            tasks := t.tasks.filter (·.1 != seq) },
          (t.tasks.find? (·.1 == seq)).map (·.2))
      else none

end Timer
end Effects
