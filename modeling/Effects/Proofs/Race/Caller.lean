import Effects.Proofs.Race.Racer

/-!
The thread that starts a race: it opens the cell and the fibers, and then dispatches the racers one
after the other.
-/

namespace Effects

open Routine

namespace Racing

variable (nodes : List Node) (c : ContextId)
  (wrap : List FiberId → Nat → Except Value Value → Value) (l : LatchId) (k : CellId)

def forks (fibers : List FiberId) (items : List ((Node × FiberId) × Nat)) : Code :=
  forEach (fun racer => Race.fork racer.1.1 c k racer.2 racer.1.2 l (wrap fibers racer.2)) items
    fun _ => .guard (some (Race.token fibers l))

def items (fibers : List FiberId) : List ((Node × FiberId) × Nat) := (nodes.zip fibers).zipIdx

def opens (rest : List Node) (fibers : List FiberId) : Code :=
  collect (fun _ => FiberId.fresh) rest fun more =>
    forks c wrap l k (fibers ++ more) (items nodes (fibers ++ more))

/-- What the racer at a place among the others is given. -/
def lane (fibers : List FiberId) (i : Nat) (f : FiberId) (node : Node) (d : ConnectionId) : Lane :=
  ⟨i, f, k, l, wrap fibers i, node, ⟨c, d⟩⟩

theorem start_eq : Race.start nodes c wrap l .guard =
    .perform .openCell fun r => opens nodes c wrap l r.toId nodes [] :=
  rfl

theorem opens_nil (fibers : List FiberId) :
    opens nodes c wrap l k [] fibers = forks c wrap l k fibers (items nodes fibers) := by
  show forks c wrap l k (fibers ++ []) (items nodes (fibers ++ [])) = _
  rw [List.append_nil]

theorem opens_cons (node : Node) (rest : List Node) (fibers : List FiberId) :
    opens nodes c wrap l k (node :: rest) fibers =
      .perform .openFiber fun r => opens nodes c wrap l k rest (fibers ++ [r.toId]) := by
  show Code.perform _ _ = Code.perform _ _
  congr 1
  funext r
  refine congrArg (collect (fun _ => FiberId.fresh) rest) (funext fun more => ?_)
  exact congrArg (fun all => forks c wrap l k all (items nodes all))
    (List.append_cons fibers r.toId more)

theorem forks_cons (fibers : List FiberId) (node : Node) (f : FiberId) (i : Nat)
    (rest : List ((Node × FiberId) × Nat)) :
    forks c wrap l k fibers (((node, f), i) :: rest) =
      .perform (.fiber f .connection) fun r =>
        .perform (.context c (.execute (lane c wrap l k fibers i f node r.toId).task)) fun _ =>
          forks c wrap l k fibers rest := by
  have hcaught : (fun r : Reply => Race.stopped k i f l (wrap fibers i)
      (r.toCaught.map Reply.toExit) fun _ => .give .unit) =
        (lane c wrap l k fibers i f node 0).caught := by
    funext r
    exact (lane c wrap l k fibers i f node 0).stopped_eq _
  have htask : ∀ d, (lane c wrap l k fibers i f node d).task =
      .perform (.attempt (lane c wrap l k fibers i f node d).body)
        fun r => Race.stopped k i f l (wrap fibers i) (r.toCaught.map Reply.toExit)
          fun _ => .give .unit := by
    intro d
    rw [hcaught]
    rfl
  simp only [htask]
  rfl

variable {nodes} in
theorem items_drop {fibers : List FiberId} {i : Nat} {node : Node} {f : FiberId}
    (hn : nodes[i]? = some node) (hf : fibers[i]? = some f) :
    (items nodes fibers).drop i = ((node, f), i) :: (items nodes fibers).drop (i + 1) := by
  obtain ⟨hi, rfl⟩ := List.getElem?_eq_some_iff.1 hn
  obtain ⟨hi', rfl⟩ := List.getElem?_eq_some_iff.1 hf
  have hlen : i < (items nodes fibers).length := by
    simp only [items, List.length_zipIdx, List.length_zip]
    omega
  rw [List.drop_eq_getElem_cons hlen]
  simp [items]

/-- How far the start has come, where `n` racers have been dispatched. -/
inductive Calling (w : World) : Activity → Option CellId → List FiberId → Nat → Prop
  | asked : Calling w ⟨.code (Race.start nodes c wrap l .guard), []⟩ none [] 0
  | opening {k : CellId} {fibers : List FiberId} {node : Node} (before rest : List Node)
      (hnodes : nodes = before ++ node :: rest) (hlen : fibers.length = before.length) :
      Calling w ⟨.code (opens nodes c wrap l k (node :: rest) fibers), []⟩ (some k) fibers 0
  | forking {k : CellId} {fibers : List FiberId} {n : Nat} (hlen : fibers.length = nodes.length) :
      Calling w ⟨.code (forks c wrap l k fibers ((items nodes fibers).drop n)), []⟩ (some k) fibers n
  | dispatching {k : CellId} {fibers : List FiberId} {n : Nat} {node : Node} {f : FiberId}
      {s : Fiber.State} (hlen : fibers.length = nodes.length) (hnode : nodes[n]? = some node)
      (hf : fibers[n]? = some f) (hs : w.fibers[f]? = some s) :
      Calling w
        ⟨.code (.perform
          (.context c (.execute (lane c wrap l k fibers n f node s.connection).task))
            fun _ => forks c wrap l k fibers ((items nodes fibers).drop (n + 1))), []⟩
        (some k) fibers n
  | failed {cell : Option CellId} {fibers : List FiberId} {n : Nat} (message : String)
      (hlen : fibers.length = nodes.length) : Calling w ⟨.unwinding message, []⟩ cell fibers n

variable {nodes c wrap l k} {w w' : World} {a : Activity} {cell : Option CellId}
  {fibers : List FiberId} {n : Nat}

/-- The fibers' connections stay theirs. -/
theorem Calling.mono (h : Calling nodes c wrap l w a cell fibers n)
    (hw : ∀ f ∈ fibers, ∀ s, w.fibers[f]? = some s →
      ∃ s', w'.fibers[f]? = some s' ∧ s'.connection = s.connection) :
    Calling nodes c wrap l w' a cell fibers n := by
  cases h with
  | asked => exact .asked
  | opening before rest hnodes hlen => exact .opening before rest hnodes hlen
  | forking hlen => exact .forking hlen
  | dispatching hlen hnode hf hs =>
    obtain ⟨s', hs', hconn⟩ := hw _ (List.mem_of_getElem? hf) _ hs
    rw [← hconn]
    exact .dispatching hlen hnode hf hs'
  | failed message hlen => exact .failed message hlen

/-- Racers are dispatched only after all fibers have been opened. -/
theorem Calling.length_eq (h : Calling nodes c wrap l w a cell fibers n) (hn : n ≠ 0) :
    fibers.length = nodes.length := by
  cases h with
  | asked => exact absurd rfl hn
  | opening before rest hnodes hlen => exact absurd rfl hn
  | forking hlen => exact hlen
  | dispatching hlen hnode hf hs => exact hlen
  | failed message hlen => exact hlen

theorem Calling.opened (before rest : List Node) (hnodes : nodes = before ++ rest)
    (hlen : fibers.length = before.length) :
    Calling nodes c wrap l w ⟨.code (opens nodes c wrap l k rest fibers), []⟩ (some k) fibers 0 := by
  cases rest with
  | nil =>
    rw [opens_nil]
    exact .forking (n := 0) (by rw [hnodes, List.append_nil, hlen])
  | cons node rest => exact .opening before rest hnodes hlen

/-- The next racer is looked at, or all have been dispatched. -/
theorem forks_cases (c : ContextId) (wrap : List FiberId → Nat → Except Value Value → Value)
    (l : LatchId) (hlen : fibers.length = nodes.length) (n : Nat) :
    (∃ node f, nodes[n]? = some node ∧ fibers[n]? = some f ∧
      forks c wrap l k fibers ((items nodes fibers).drop n) =
        .perform (.fiber f .connection) fun r =>
          .perform (.context c (.execute (lane c wrap l k fibers n f node r.toId).task)) fun _ =>
            forks c wrap l k fibers ((items nodes fibers).drop (n + 1))) ∨
      forks c wrap l k fibers ((items nodes fibers).drop n) =
        .guard (some (Race.token fibers l)) := by
  by_cases hn : n < nodes.length
  · have hnode : nodes[n]? = some nodes[n] := List.getElem?_eq_getElem hn
    have hf : fibers[n]? = some (fibers.get ⟨n, hlen ▸ hn⟩) := List.getElem?_eq_getElem _
    refine .inl ⟨_, _, hnode, hf, ?_⟩
    rw [items_drop hnode hf, forks_cons]
  · have hdrop : (items nodes fibers).drop n = [] := by
      refine List.drop_eq_nil_of_le ?_
      simp only [items, List.length_zipIdx, List.length_zip]
      omega
    rw [hdrop]
    exact .inr rfl

/-- What the caller does next. -/
inductive Calls (nodes : List Node) (c : ContextId)
    (wrap : List FiberId → Nat → Except Value Value → Value) (l : LatchId) (w : World) :
    Op → (Reply → Code) → Option CellId → List FiberId → Nat → Prop
  | cell : Calls nodes c wrap l w .openCell (fun r => opens nodes c wrap l r.toId nodes []) none [] 0
  | fiber {k : CellId} {fibers : List FiberId} {node : Node} (before rest : List Node)
      (hnodes : nodes = before ++ node :: rest) (hlen : fibers.length = before.length) :
      Calls nodes c wrap l w .openFiber
        (fun r => opens nodes c wrap l k rest (fibers ++ [r.toId])) (some k) fibers 0
  | connection {k : CellId} {fibers : List FiberId} {n : Nat} {node : Node} {f : FiberId}
      (hlen : fibers.length = nodes.length) (hnode : nodes[n]? = some node)
      (hf : fibers[n]? = some f) :
      Calls nodes c wrap l w (.fiber f .connection)
        (fun r => .perform
          (.context c (.execute (lane c wrap l k fibers n f node r.toId).task)) fun _ =>
            forks c wrap l k fibers ((items nodes fibers).drop (n + 1)))
        (some k) fibers n
  | execute {k : CellId} {fibers : List FiberId} {n : Nat} {node : Node} {f : FiberId}
      {s : Fiber.State} (hlen : fibers.length = nodes.length) (hnode : nodes[n]? = some node)
      (hf : fibers[n]? = some f) (hs : w.fibers[f]? = some s) :
      Calls nodes c wrap l w
        (.context c (.execute (lane c wrap l k fibers n f node s.connection).task))
        (fun _ => forks c wrap l k fibers ((items nodes fibers).drop (n + 1))) (some k) fibers n

theorem Calling.calls {op : Op} {next : Reply → Code}
    (h : Calling nodes c wrap l w ⟨.code (.perform op next), []⟩ cell fibers n) :
    Calls nodes c wrap l w op next cell fibers n := by
  generalize ha : (⟨.code (.perform op next), []⟩ : Activity) = a at h
  cases h with
  | asked =>
    rw [start_eq] at ha
    cases ha
    exact .cell
  | opening before rest hnodes hlen =>
    rw [opens_cons] at ha
    cases ha
    exact .fiber before rest hnodes hlen
  | forking hlen =>
    obtain ⟨node, f, hnode, hf, h⟩ | h := forks_cases c wrap l hlen n
    · rw [h] at ha
      cases ha
      exact .connection hlen hnode hf
    · rw [h] at ha
      cases ha
  | dispatching hlen hnode hf hs =>
    cases ha
    exact .execute hlen hnode hf hs
  | failed message hlen => cases ha

end Racing
end Effects
