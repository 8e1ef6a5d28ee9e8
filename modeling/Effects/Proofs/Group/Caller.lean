import Effects.Proofs.Group.Branch

/-!
The thread that runs a group: it opens the connections and the cell, links them to its own
connection, dispatches the branches one after the other, and then waits for them in the same order.
-/

namespace Effects

open Routine

namespace Gathering

variable (branches : List Node) (finish : List Value → Code) (run : Run) (g : Group)

/-- What the exits of all branches come to, once the first failure is known. -/
def answering (exits : List Exit) (first : Cell (Option Nat)) : Code :=
  match Group.values? exits with
  | some values => finish values
  | none => .give (.outcome (Group.pick first.value exits))

def looking (exits : List Exit) : Code :=
  .perform (.readCell g.firstFailure) fun r => answering finish exits r.toSnapshot

def popping (exits : List Exit) : Code :=
  .perform (.connection run.connection .pop) fun _ => looking finish g exits

def awaiting (callbacks : List LatchId) (exits : List Exit) : Code :=
  collect LatchId.wait callbacks fun more => popping finish run g (exits ++ more)

def forking (items : List (Node × Nat)) (callbacks : List LatchId) : Code :=
  collect (g.forkBranch run.context) items fun more => awaiting finish run g (callbacks ++ more) []

def pushing : Code :=
  .perform (.connection run.connection (.push (task g.cancelAll))) fun _ =>
    forking finish run g branches.zipIdx []

def opening (rest : List Nat) (conns : List ConnectionId) : Code :=
  collect (fun _ => ConnectionId.fresh) rest fun more =>
    .perform .openCell fun r => pushing branches finish run ⟨conns ++ more, r.toId⟩

/-- What the branch at a place among the others is given. -/
def lane (i : Nat) (callback : LatchId) (node : Node) (c : ContextId) : Lane :=
  ⟨i, g.firstFailure, callback, node, ⟨c, g.connections.getD i .uncancelable⟩,
    g.connections.eraseIdx i⟩

def dispatching (i : Nat) (callback : LatchId) (node : Node) (c : ContextId)
    (rest : List (Node × Nat)) (callbacks : List LatchId) : Code :=
  .perform (.context c (.execute (lane g i callback node c).task)) fun _ =>
    forking finish run g rest (callbacks ++ [callback])

def naming (i : Nat) (callback : LatchId) (node : Node) (rest : List (Node × Nat))
    (callbacks : List LatchId) : Code :=
  .perform (.context run.context (.derive ("par-" ++ toString i))) fun r =>
    dispatching finish run g i callback node r.toId rest callbacks

theorem code_eq :
    Group.code branches finish run =
      opening branches finish run (List.range branches.length) [] :=
  rfl

theorem opening_nil (conns : List ConnectionId) :
    opening branches finish run [] conns =
      .perform .openCell fun r => pushing branches finish run ⟨conns, r.toId⟩ := by
  show (Code.perform .openCell fun r => pushing branches finish run ⟨conns ++ [], r.toId⟩) = _
  rw [List.append_nil]

theorem opening_cons (i : Nat) (rest : List Nat) (conns : List ConnectionId) :
    opening branches finish run (i :: rest) conns =
      .perform .openConnection fun r => opening branches finish run rest (conns ++ [r.toId]) := by
  show Code.perform _ _ = Code.perform _ _
  congr 1
  funext r
  refine congrArg (collect (fun _ => ConnectionId.fresh) rest) (funext fun more => ?_)
  exact congrArg (fun conns => Code.perform .openCell fun r => pushing branches finish run
    ⟨conns, r.toId⟩) (List.append_cons conns r.toId more)

theorem forking_nil (callbacks : List LatchId) :
    forking finish run g [] callbacks = awaiting finish run g callbacks [] := by
  show awaiting finish run g (callbacks ++ []) [] = _
  rw [List.append_nil]

theorem forking_cons (node : Node) (i : Nat) (rest : List (Node × Nat))
    (callbacks : List LatchId) :
    forking finish run g ((node, i) :: rest) callbacks =
      .perform .openLatch fun r => naming finish run g i r.toId node rest callbacks := by
  have hcaught : ∀ callback c, (fun r : Reply => g.report i callback (r.toCaught.map Reply.toExit)
      fun _ => .give .unit) = (lane g i callback node c).caught := by
    intro callback c
    funext r
    exact (lane g i callback node c).report_eq _ g rfl rfl
  have htask : ∀ callback c, (lane g i callback node c).task =
      .perform (.attempt (lane g i callback node c).body)
        fun r => g.report i callback (r.toCaught.map Reply.toExit) fun _ => .give .unit := by
    intro callback c
    rw [hcaught callback c]
    rfl
  simp only [naming, dispatching, htask]
  show Code.perform _ _ = Code.perform _ _
  congr 1
  funext r
  show Code.perform _ _ = Code.perform _ _
  congr 1
  funext r'
  show Code.perform _ _ = Code.perform _ _
  congr 1
  funext _
  refine congrArg (collect (g.forkBranch run.context) rest) (funext fun more => ?_)
  exact congrArg (fun callbacks => awaiting finish run g callbacks [])
    (List.append_cons callbacks r.toId more)

theorem awaiting_nil (exits : List Exit) :
    awaiting finish run g [] exits = popping finish run g exits := by
  show popping finish run g (exits ++ []) = _
  rw [List.append_nil]

/-- A branch has ended, and unless it has panicked the next one is waited for. -/
def collecting (rest : List LatchId) (exits : List Exit) (r : Reply) : Code :=
  match r.toCaught with
  | .ok reply => awaiting finish run g rest (exits ++ [reply.toExit])
  | .error message => .panic message

theorem awaiting_cons (callback : LatchId) (rest : List LatchId) (exits : List Exit) :
    awaiting finish run g (callback :: rest) exits =
      .perform (.await callback) (collecting finish run g rest exits) := by
  have hnext : ∀ r : Reply, (rethrow r.toCaught) (fun reply =>
      collect LatchId.wait rest fun more => popping finish run g (exits ++ reply.toExit :: more)) =
        collecting finish run g rest exits r := by
    intro r
    rw [collecting]
    cases r.toCaught with
    | error message => rfl
    | ok reply =>
      refine congrArg (collect LatchId.wait rest) (funext fun more => ?_)
      rw [List.append_cons]
  exact congrArg (Code.perform (.await callback)) (funext hnext)

/-- How far the caller has come, where `n` branches have been dispatched and `got` has been delivered
by those that it has waited for. -/
inductive Calling : Activity → List ConnectionId → Option CellId → List LatchId → Nat →
    List Delivery → Option Code → Prop
  | opening {conns : List ConnectionId} (before rest : List Nat)
      (hsplit : List.range branches.length = before ++ rest)
      (hlen : conns.length = before.length) :
      Calling ⟨.code (opening branches finish run rest conns), []⟩ conns none [] 0 [] none
  | pushing {g : Group} (hlen : g.connections.length = branches.length) :
      Calling ⟨.code (pushing branches finish run g), []⟩ g.connections (some g.firstFailure) [] 0 []
        none
  | token {g : Group} (a : Activity) {frame : Frame}
      (hframe : frame.Awaits (· = forking finish run g branches.zipIdx []))
      (hlen : g.connections.length = branches.length) :
      Calling (a.atop [frame]) g.connections (some g.firstFailure) [] 0 [] none
  | forking {g : Group} {callbacks : List LatchId} {node : Node}
      (hlen : g.connections.length = branches.length)
      (hnode : branches[callbacks.length]? = some node) :
      Calling
        ⟨.code (forking finish run g (branches.zipIdx.drop callbacks.length) callbacks), []⟩
        g.connections (some g.firstFailure) callbacks callbacks.length [] none
  | naming {g : Group} {callbacks : List LatchId} {callback : LatchId} {node : Node}
      (hlen : g.connections.length = branches.length)
      (hnode : branches[callbacks.length]? = some node) :
      Calling
        ⟨.code (naming finish run g callbacks.length callback node
          (branches.zipIdx.drop (callbacks.length + 1)) callbacks), []⟩
        g.connections (some g.firstFailure) (callbacks ++ [callback]) callbacks.length [] none
  | dispatching {g : Group} {callbacks : List LatchId} {callback : LatchId} {node : Node}
      (c : ContextId) (hlen : g.connections.length = branches.length)
      (hnode : branches[callbacks.length]? = some node) :
      Calling
        ⟨.code (dispatching finish run g callbacks.length callback node c
          (branches.zipIdx.drop (callbacks.length + 1)) callbacks), []⟩
        g.connections (some g.firstFailure) (callbacks ++ [callback]) callbacks.length [] none
  | awaiting {g : Group} {callbacks : List LatchId} {exits : List Exit}
      (hlen : g.connections.length = branches.length)
      (hcallbacks : callbacks.length = branches.length)
      (hexits : exits.length ≤ branches.length) :
      Calling ⟨.code (awaiting finish run g (callbacks.drop exits.length) exits), []⟩
        g.connections (some g.firstFailure) callbacks branches.length (exits.map .ok) none
  | looking {g : Group} {callbacks : List LatchId} {exits : List Exit}
      (hexits : exits.length = branches.length) :
      Calling ⟨.code (looking finish g exits), []⟩ g.connections (some g.firstFailure) callbacks
        branches.length (exits.map .ok) none
  | answered {conns : List ConnectionId} {cell : Option CellId} {callbacks : List LatchId}
      {got : List Delivery} (a : Activity) (code : Code) :
      Calling a conns cell callbacks branches.length got (some code)
  | failed {conns : List ConnectionId} {cell : Option CellId} {callbacks : List LatchId} {n : Nat}
      {got : List Delivery} (message : String) (hlen : conns.length = branches.length)
      (hcause : n = 0 ∨ n < branches.length ∨ .error message ∈ got) (control : Control)
      (hcontrol : control = .code (.panic message) ∨ control = .unwinding message) :
      Calling ⟨control, []⟩ conns cell callbacks n got none

/-- What the caller does next. -/
inductive Calls : Op → (Reply → Code) → List ConnectionId → Option CellId → List LatchId → Nat →
    List Delivery → Prop
  | connection {conns : List ConnectionId} {i : Nat} (before rest : List Nat)
      (hsplit : List.range branches.length = before ++ i :: rest)
      (hlen : conns.length = before.length) :
      Calls .openConnection (fun r => opening branches finish run rest (conns ++ [r.toId])) conns none
        [] 0 []
  | cell {conns : List ConnectionId} (hlen : conns.length = branches.length) :
      Calls .openCell (fun r => pushing branches finish run ⟨conns, r.toId⟩) conns none [] 0 []
  | push {g : Group} (hlen : g.connections.length = branches.length) :
      Calls (.connection run.connection (.push (task g.cancelAll)))
        (fun _ => forking finish run g branches.zipIdx []) g.connections (some g.firstFailure) [] 0 []
  | latch {g : Group} {callbacks : List LatchId} {node : Node}
      (hlen : g.connections.length = branches.length)
      (hnode : branches[callbacks.length]? = some node) :
      Calls .openLatch
        (fun r => naming finish run g callbacks.length r.toId node
          (branches.zipIdx.drop (callbacks.length + 1)) callbacks)
        g.connections (some g.firstFailure) callbacks callbacks.length []
  | derive {g : Group} {callbacks : List LatchId} {callback : LatchId} {node : Node}
      (label : String) (hlen : g.connections.length = branches.length)
      (hnode : branches[callbacks.length]? = some node) :
      Calls (.context run.context (.derive label))
        (fun r => dispatching finish run g callbacks.length callback node r.toId
          (branches.zipIdx.drop (callbacks.length + 1)) callbacks)
        g.connections (some g.firstFailure) (callbacks ++ [callback]) callbacks.length []
  | execute {g : Group} {callbacks : List LatchId} {callback : LatchId} {node : Node}
      (c : ContextId) (hlen : g.connections.length = branches.length)
      (hnode : branches[callbacks.length]? = some node) :
      Calls (.context c (.execute (lane g callbacks.length callback node c).task))
        (fun _ => forking finish run g (branches.zipIdx.drop (callbacks.length + 1))
          (callbacks ++ [callback]))
        g.connections (some g.firstFailure) (callbacks ++ [callback]) callbacks.length []
  | await {g : Group} {callbacks : List LatchId} {callback : LatchId} {exits : List Exit}
      (hlen : g.connections.length = branches.length)
      (hcallbacks : callbacks.length = branches.length)
      (hcallback : callbacks[exits.length]? = some callback) :
      Calls (.await callback)
        (collecting finish run g (callbacks.drop (exits.length + 1)) exits)
        g.connections (some g.firstFailure) callbacks branches.length (exits.map .ok)
  | pop {g : Group} {callbacks : List LatchId} {exits : List Exit}
      (hexits : exits.length = branches.length) :
      Calls (.connection run.connection .pop) (fun _ => looking finish g exits) g.connections
        (some g.firstFailure) callbacks branches.length (exits.map .ok)
  | read {g : Group} {callbacks : List LatchId} {exits : List Exit}
      (hexits : exits.length = branches.length) :
      Calls (.readCell g.firstFailure) (fun r => answering finish exits r.toSnapshot) g.connections
        (some g.firstFailure) callbacks branches.length (exits.map .ok)

variable {branches finish run g} {a : Activity} {conns : List ConnectionId} {cell : Option CellId}
  {callbacks : List LatchId} {n : Nat} {got : List Delivery} {answer : Option Code}

/-- The next branch is dispatched, or all have been. -/
theorem Calling.forked (callbacks : List LatchId) (hlen : g.connections.length = branches.length)
    (hcallbacks : callbacks.length ≤ branches.length) :
    Calling branches finish run
      ⟨.code (Gathering.forking finish run g (branches.zipIdx.drop callbacks.length) callbacks), []⟩
      g.connections (some g.firstFailure) callbacks callbacks.length [] none := by
  obtain hlt | heq := Nat.lt_or_eq_of_le hcallbacks
  · exact .forking hlen (List.getElem?_eq_getElem hlt)
  · have hdrop : branches.zipIdx.drop callbacks.length = [] := by
      rw [heq]
      simp
    have hawaiting : Calling branches finish run
        ⟨.code (Gathering.awaiting finish run g (callbacks.drop 0) []), []⟩ g.connections
          (some g.firstFailure) callbacks branches.length [] none :=
      @Calling.awaiting branches finish run g callbacks [] hlen heq (Nat.zero_le _)
    rw [hdrop, forking_nil, heq]
    exact hawaiting

theorem Calling.length_eq {code : Code}
    (h : Calling branches finish run a conns cell callbacks n got (some code)) :
    n = branches.length := by
  cases h with
  | answered a code => rfl

/-- Once all branches have been dispatched, the caller waits for those that are left, or looks at the
first failure. -/
theorem Calling.dispatched (h : Calling branches finish run a conns cell callbacks n got none)
    (hn : n = branches.length) (hsome : branches ≠ [])
    (herror : ∀ message, .error message ∉ got) : ∃ g exits, got = exits.map .ok ∧
      (callbacks.length = branches.length ∧
        a = ⟨.code (Gathering.awaiting finish run g (callbacks.drop exits.length) exits), []⟩ ∨
      a = ⟨.code (Gathering.looking finish g exits), []⟩) := by
  have hpos : branches.length ≠ 0 := fun h0 => hsome (List.length_eq_zero_iff.1 h0)
  generalize ho : (none : Option Code) = o at h
  cases h with
  | opening | pushing | token => exact absurd hn.symm hpos
  | forking hlen hnode | naming hlen hnode | dispatching c hlen hnode =>
    have hlt := (List.getElem?_eq_some_iff.1 hnode).1
    omega
  | awaiting hlen hcallbacks hexits => exact ⟨_, _, rfl, .inl ⟨hcallbacks, rfl⟩⟩
  | looking hexits => exact ⟨_, _, rfl, .inr rfl⟩
  | answered a code => cases ho
  | failed message hlen hcause control hcontrol =>
    obtain hzero | hlt | hmem := hcause
    · exact absurd (hn.symm.trans hzero) hpos
    · omega
    · exact absurd hmem (herror message)

/-- The exit of the next branch is added to the others, and its panic goes on in the caller. -/
theorem Calling.collected {exits : List Exit} {exit : Delivery} {r : Except String Reply}
    (hlen : g.connections.length = branches.length)
    (hcallbacks : callbacks.length = branches.length) (hexits : exits.length < branches.length)
    (hr : r = exit.map .outcome) :
    Calling branches finish run
      ⟨.code (collecting finish run g (callbacks.drop (exits.length + 1)) exits (.caught r)), []⟩
      g.connections (some g.firstFailure) callbacks branches.length (exits.map .ok ++ [exit])
      none := by
  subst hr
  cases exit with
  | error message =>
    exact .failed message hlen (.inr (.inr (by simp))) _ (.inl rfl)
  | ok exit =>
    have hnext := @Calling.awaiting branches finish run g callbacks (exits ++ [exit]) hlen
      hcallbacks (by simpa using Nat.succ_le_of_lt hexits)
    rw [List.map_append, List.length_append] at hnext
    exact hnext

theorem Calling.calls {op : Op} {next : Reply → Code}
    (h : Calling branches finish run ⟨.code (.perform op next), []⟩ conns cell callbacks n got
      none) :
    Calls branches finish run op next conns cell callbacks n got := by
  generalize ha : (⟨.code (.perform op next), []⟩ : Activity) = a,
    ho : (none : Option Code) = o at h
  cases h with
  | opening before rest hsplit hlen =>
    cases rest with
    | nil =>
      rw [opening_nil] at ha
      cases ha
      refine .cell (hlen.trans ?_)
      simpa using (congrArg List.length hsplit).symm
    | cons i rest =>
      rw [opening_cons] at ha
      cases ha
      exact .connection before rest hsplit hlen
  | pushing hlen =>
    cases ha
    exact .push hlen
  | token a hframe hlen => simp [Activity.atop] at ha
  | @forking g callbacks node hlen hnode =>
    obtain ⟨hi, rfl⟩ := List.getElem?_eq_some_iff.1 hnode
    have hdrop : branches.zipIdx.drop callbacks.length =
        (branches[callbacks.length], callbacks.length) ::
          branches.zipIdx.drop (callbacks.length + 1) := by
      rw [List.drop_eq_getElem_cons (by simpa using hi)]
      simp
    rw [hdrop, forking_cons] at ha
    cases ha
    exact .latch hlen hnode
  | naming hlen hnode =>
    cases ha
    exact .derive _ hlen hnode
  | dispatching c hlen hnode =>
    cases ha
    exact .execute c hlen hnode
  | @awaiting g callbacks exits hlen hcallbacks hexits =>
    obtain hlt | heq := Nat.lt_or_eq_of_le hexits
    · have hi : exits.length < callbacks.length := by omega
      rw [List.drop_eq_getElem_cons hi, awaiting_cons] at ha
      cases ha
      exact .await hlen hcallbacks (List.getElem?_eq_getElem hi)
    · rw [List.drop_eq_nil_of_le (by omega), awaiting_nil] at ha
      cases ha
      exact .pop heq
  | looking hexits =>
    cases ha
    exact .read hexits
  | answered a code => cases ho
  | failed message hlen hcause control hcontrol =>
    obtain rfl | rfl := hcontrol <;> cases ha

end Gathering
end Effects
