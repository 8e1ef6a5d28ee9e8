import Effects.Proofs.Bracket.Composed

/-!
Programs that have nothing to do with a connection, but that they may cancel it: they are not run
with it, no answer hands it to them, and they hand it to nobody. The fibers that have this
connection may be canceled too.
-/

namespace Effects

/-- Tells of a run with the connection. -/
inductive Reply.Carries (c : ConnectionId) : Reply → Prop
  | ended (exit : Exit) {run : Run} (h : run.connection = c) : Reply.Carries c (.ended exit run)
  | caught {r : Reply} (h : Reply.Carries c r) : Reply.Carries c (.caught (.ok r))

namespace Op

/-- Holds no code, names no connection and hands over no reply. -/
def isPlain : Op → Bool
  | .connection _ _ | .settle _ _ | .context _ (.execute _) | .fork _ | .schedule _ _ |
    .drive _ _ | .call _ | .attempt _ => false
  | _ => true

/-- What the operation is answered as long as others keep the connection to themselves. -/
def Answers (c : ConnectionId) (own : FiberId → Prop) (op : Op) (r : Reply) : Prop :=
  ¬ r.Carries c ∧
    match op with
    | .openConnection => r.toId ≠ c
    | .openFiber => ¬ own r.toId
    | .fiber f .connection => ¬ own f → r.toId ≠ c
    | _ => True

end Op

section

variable (c : ConnectionId) (own : FiberId → Prop)

mutual

inductive Node.Apart : Node → Prop
  | pure (v : Value) : Node.Apart (.pure v)
  | raise (error : Value) : Node.Apart (.raise error)
  | suspend {thunk : Code} (h : Code.Apart thunk) : Node.Apart (.suspend thunk)
  | async {register : LatchId → Code} (h : ∀ l, Code.Apart (register l)) :
      Node.Apart (.async register)
  | map {inner : Node} {f : Value → Code} (h : Node.Apart inner) (hf : ∀ v, Code.Apart (f v)) :
      Node.Apart (.map inner f)
  | flatMap {inner : Node} {f : Value → Code} (h : Node.Apart inner)
      (hf : ∀ v, Code.Apart (f v)) : Node.Apart (.flatMap inner f)
  | handleErrorWith {inner : Node} {f : Value → Code} (h : Node.Apart inner)
      (hf : ∀ v, Code.Apart (f v)) : Node.Apart (.handleErrorWith inner f)
  | continueOn {inner : Node} (target : ContextId) (h : Node.Apart inner) :
      Node.Apart (.continueOn inner target)
  | uncancelable {inner : Node} (h : Node.Apart inner) : Node.Apart (.uncancelable inner)
  | bracket {acquire : Node} {use : Value → Code} {release : Value → ExitCase Value → Code}
      (ha : Node.Apart acquire) (hu : ∀ v, Code.Apart (use v))
      (hr : ∀ v e, Code.Apart (release v e)) : Node.Apart (.bracket acquire use release)
  | bracketUse (resource : Value) {use : Value → Code} {release : Value → ExitCase Value → Code}
      (hu : ∀ v, Code.Apart (use v)) (hr : ∀ v e, Code.Apart (release v e)) :
      Node.Apart (.bracketUse resource use release)
  | bracketRelease {finalizer : Node} (exit : Exit) (h : Node.Apart finalizer) :
      Node.Apart (.bracketRelease finalizer exit)
  | parMap {branches : List Node} {combine : List Value → Code}
      (h : ∀ n ∈ branches, Node.Apart n) (hf : ∀ vs, Code.Apart (combine vs)) :
      Node.Apart (.parMap branches combine)
  | parSequence {branches : List Node} (h : ∀ n ∈ branches, Node.Apart n) :
      Node.Apart (.parSequence branches)
  | instrument {inner : Node} (h : Node.Apart inner) : Node.Apart (.instrument inner)
  | loop {body : Value → Node} (seed : Value) (h : ∀ v, Node.Apart (body v)) :
      Node.Apart (.loop body seed)

inductive Code.Apart : Code → Prop
  | give {r : Reply} (h : ¬ r.Carries c) : Code.Apart (.give r)
  | build {n : Node} (h : Node.Apart n) : Code.Apart (.build n)
  | guard {token : Option Code} (h : ∀ t, token = some t → Code.Apart t) :
      Code.Apart (.guard token)
  | panic (message : String) : Code.Apart (.panic message)
  | perform {op : Op} {next : Reply → Code} (ho : Op.Apart op)
      (h : ∀ r, op.Answers c own r → Code.Apart (next r)) : Code.Apart (.perform op next)

inductive Op.Apart : Op → Prop
  | plain {op : Op} (h : op.isPlain = true) : Op.Apart op
  | connection {d : ConnectionId} (hd : d ≠ c) {op : ConnectionOp Code}
      (h : ∀ token, op = .push token → Code.Apart token) : Op.Apart (.connection d op)
  | cancel (d : ConnectionId) : Op.Apart (.connection d .cancel)
  | settle (l : LatchId) {result : Except String Reply}
      (h : ∀ r, result = .ok r → ¬ r.Carries c) : Op.Apart (.settle l result)
  | execute (d : ContextId) {task : Code} (h : Code.Apart task) :
      Op.Apart (.context d (.execute task))
  | fork {body : Code} (h : Code.Apart body) : Op.Apart (.fork body)
  | schedule (delay : Duration) {task : Code} (h : Code.Apart task) :
      Op.Apart (.schedule delay task)
  | drive {machine : Machine} {run : Run} (h : Machine.Apart machine)
      (hr : run.connection ≠ c) : Op.Apart (.drive machine run)
  | call {body : Code} (h : Code.Apart body) : Op.Apart (.call body)
  | attempt {body : Code} (h : Code.Apart body) : Op.Apart (.attempt body)

inductive Cont.Apart : Cont → Prop
  | map {f : Value → Code} (h : ∀ v, Code.Apart (f v)) : Cont.Apart (.map f)
  | flatMap {f : Value → Code} (h : ∀ v, Code.Apart (f v)) : Cont.Apart (.flatMap f)
  | recover {f : Value → Code} (h : ∀ v, Code.Apart (f v)) : Cont.Apart (.recover f)
  | switch (target : ContextId) : Cont.Apart (.switch target)
  | restore {saved : ConnectionId} (h : saved ≠ c) : Cont.Apart (.restore saved)

inductive Machine.Apart : Machine → Prop
  | focus {n : Node} {next : List Cont} (hn : Node.Apart n) (h : ∀ cont ∈ next, Cont.Apart cont) :
      Machine.Apart (.focus n next)
  | unwind (exit : Exit) {next : List Cont} (h : ∀ cont ∈ next, Cont.Apart cont) :
      Machine.Apart (.unwind exit next)

end

inductive Answer.Apart : Answer → Prop
  | reply {r : Reply} (h : ¬ r.Carries c) : Answer.Apart (.reply r)
  | node {n : Node} (h : n.Apart c own) : Answer.Apart (.node n)
  | token {t : Option Code} (h : ∀ x, t = some x → x.Apart c own) : Answer.Apart (.token t)

/-- Goes on apart, if what comes after is apart whenever `P` is true of its result. -/
def Routine.Apart {α : Type} (P : α → Prop) (r : Routine α) : Prop :=
  ∀ k : α → Code, (∀ a, P a → (k a).Apart c own) → (r k).Apart c own

end

variable {c : ConnectionId} {own : FiberId → Prop} {α β : Type} {run : Run}

namespace Reply

theorem not_carries_outcome (exit : Exit) : ¬ (outcome exit).Carries c := by rintro ⟨⟩

theorem not_carries_unit : ¬ unit.Carries c := by rintro ⟨⟩

theorem not_carries_ended {exit : Exit} (h : run.connection ≠ c) :
    ¬ (ended exit run).Carries c := by
  rintro ⟨-, hc⟩
  exact h hc

theorem not_carries_caught {result : Except String Reply}
    (h : ∀ r, result = .ok r → ¬ r.Carries c) : ¬ (caught result).Carries c := by
  intro hc
  cases hc with
  | caught hr => exact h _ rfl hr

theorem not_carries_toCaught {r x : Reply} (h : ¬ r.Carries c) (hx : r.toCaught = .ok x) :
    ¬ x.Carries c := by
  cases r with
  | caught result =>
    obtain rfl : result = .ok x := hx
    exact fun hc => h (.caught hc)
  | _ =>
    obtain rfl := Except.ok.inj hx
    exact h

end Reply

theorem Code.Apart.andThen {k : Answer → Code} (h : ∀ a, a.Apart c own → (k a).Apart c own) :
    (x : Code) → x.Apart c own → (x.andThen k).Apart c own
  | .give _, .give hr => h _ (.reply hr)
  | .build _, .build hn => h _ (.node hn)
  | .guard _, .guard ht => h _ (.token ht)
  | .panic message, _ => .panic message
  | .perform _ next, .perform ho hnext =>
      .perform ho fun r hr => andThen h (next r) (hnext r hr)

namespace Routine.Apart

variable {P : α → Prop} {Q : β → Prop} {op : Op}

theorem ret {a : α} (h : P a) : Apart c own P (Pure.pure a) := fun _ hk => hk a h

theorem bind {r : Routine α} {f : α → Routine β} (hr : r.Apart c own P)
    (hf : ∀ a, P a → (f a).Apart c own Q) : Apart c own Q (r >>= f) :=
  fun k hk => hr _ fun a ha => hf a ha k hk

theorem weaken {P' : α → Prop} {r : Routine α} (hr : r.Apart c own P) (h : ∀ a, P a → P' a) :
    r.Apart c own P' :=
  fun k hk => hr k fun a ha => hk a (h a ha)

theorem perform (h : op.Apart c own) : Apart c own (op.Answers c own) (Routine.perform op) :=
  fun _ hk => .perform h fun r hr => hk r hr

theorem reads {f : Reply → α} (h : op.Apart c own) (hP : ∀ r, op.Answers c own r → P (f r)) :
    Apart c own P (do return f (← Routine.perform op)) :=
  (perform h).bind fun r hr => ret (hP r hr)

theorem ask {f : Reply → α} (h : op.isPlain = true) :
    Apart c own (fun _ => True) (do return f (← Routine.perform op)) :=
  reads (.plain h) fun _ _ => trivial

theorem done (h : op.Apart c own) :
    Apart c own (fun _ => True) (do let _ ← Routine.perform op) :=
  reads h fun _ _ => trivial

theorem panic (message : String) : Apart c own P (Routine.panic message) :=
  fun _ _ => .panic message

theorem rethrow {r : Except String α} (h : ∀ a, r = .ok a → P a) :
    Apart c own P (Routine.rethrow r) := by
  cases r with
  | ok a => exact ret (h a rfl)
  | error message => exact panic message

theorem embed {x : Code} (h : x.Apart c own) :
    Apart c own (fun a => a.Apart c own) (Routine.embed x) :=
  fun _ hk => Code.Apart.andThen hk x h

theorem forEach {f : α → Routine Unit} {l : List α}
    (h : ∀ a ∈ l, (f a).Apart c own fun _ => True) :
    Apart c own (fun _ => True) (Routine.forEach f l) := by
  induction l with
  | nil => exact ret trivial
  | cons a rest ih =>
    obtain ⟨ha, hrest⟩ := List.forall_mem_cons.1 h
    exact ha.bind fun _ _ => ih hrest

theorem collect {f : α → Routine β} {l : List α} (h : ∀ a ∈ l, (f a).Apart c own Q) :
    Apart c own (fun bs => ∀ b ∈ bs, Q b) (Routine.collect f l) := by
  induction l with
  | nil => exact ret fun _ h => absurd h List.not_mem_nil
  | cons a rest ih =>
    obtain ⟨ha, hrest⟩ := List.forall_mem_cons.1 h
    refine ha.bind fun b hb => (ih hrest).bind fun bs hbs => ret ?_
    exact List.forall_mem_cons.2 ⟨hb, hbs⟩

theorem task {r : Routine Unit} (h : r.Apart c own fun _ => True) :
    (Routine.task r).Apart c own :=
  h _ fun _ _ => .give Reply.not_carries_unit

theorem attempt {body : Code} (h : body.Apart c own) :
    Apart c own (fun result => ∀ r, result = .ok r → ¬ r.Carries c) (Routine.attempt body) :=
  reads (.attempt h) fun _ hr _ => Reply.not_carries_toCaught hr.1

theorem call {body : Code} (h : body.Apart c own) :
    Apart c own (fun r => ¬ r.Carries c) (Routine.call body) :=
  (perform (.call h)).weaken fun _ hr => hr.1

theorem drive {machine : Machine} (h : machine.Apart c own) (hr : run.connection ≠ c) :
    Apart c own (fun r => ¬ r.Carries c) (Routine.drive machine run) :=
  (perform (.drive h hr)).weaken fun _ ha => ha.1

theorem await (l : LatchId) :
    Apart c own (fun result => ∀ r, result = .ok r → ¬ r.Carries c) l.await :=
  reads (.plain rfl) fun _ hr _ => Reply.not_carries_toCaught hr.1

theorem settle {l : LatchId} {result : Except String Reply}
    (h : ∀ r, result = .ok r → ¬ r.Carries c) : Apart c own (fun _ => True) (l.settle result) :=
  done (.settle l h)

theorem deliver (l : LatchId) (d : Delivery) : Apart c own (fun _ => True) (l.deliver d) := by
  refine settle fun r hr => ?_
  cases d with
  | ok exit =>
    obtain rfl := Except.ok.inj hr
    exact Reply.not_carries_outcome exit
  | error message => cases hr

theorem wait (l : LatchId) : Apart c own (fun _ => True) l.wait :=
  (await l).bind fun _ hr => (rethrow hr).bind fun _ _ => ret trivial

theorem execute (d : ContextId) {task : Code} (h : task.Apart c own) :
    Apart c own (fun _ => True) (d.execute task) :=
  done (.execute d h)

theorem push {d : ConnectionId} (hd : d ≠ c) {token : Code} (h : token.Apart c own) :
    Apart c own (fun _ => True) (d.push token) := by
  refine done (.connection hd fun t ht => ?_)
  obtain rfl := ConnectionOp.push.inj ht
  exact h

theorem pop {d : ConnectionId} (hd : d ≠ c) : Apart c own (fun _ => True) d.pop :=
  reads (.connection hd fun _ => by rintro ⟨⟩) fun _ _ => trivial

theorem cancel (d : ConnectionId) : Apart c own (fun _ => True) d.cancel := done (.cancel d)

/-- A wait of a run with another connection. -/
theorem suspend {register : LatchId → Code} (h : ∀ l, (register l).Apart c own)
    {d : ConnectionId} (hd : d ≠ c) :
    Apart c own (fun _ => True) (Routine.suspend register d) := by
  refine bind (P := fun _ => True)
    (reads (.connection hd fun _ => by rintro ⟨⟩) fun _ _ => trivial) fun canceled _ => ?_
  cases canceled with
  | true => exact ret trivial
  | false =>
    refine (ask rfl).bind fun l _ => (embed (h l)).bind fun answer hanswer => ?_
    cases hanswer with
    | reply | node => exact wait l
    | @token t ht =>
      cases t with
      | none => exact wait l
      | some token =>
        refine (push hd (ht token rfl)).bind fun _ _ => (wait l).bind fun exit _ => ?_
        exact (pop hd).bind fun _ _ => ret trivial

/-- The rest of a machine, finished on another thread. -/
theorem hop {machine : Machine} (h : machine.Apart c own) (hr : run.connection ≠ c) :
    Apart c own (fun r => ¬ r.Carries c) (Routine.hop machine run) := by
  have hbody : (Routine.drive machine run .give).Apart c own :=
    drive h hr _ fun _ hr => .give hr
  refine (ask rfl).bind fun here _ => ?_
  cases here with
  | true => exact call hbody
  | false =>
    refine (ask rfl).bind fun latch _ => ?_
    refine (execute _ (task ((attempt hbody).bind fun _ => settle))).bind fun _ _ => ?_
    exact (await latch).bind fun _ hresult => rethrow hresult

/-- What a dispatched computation runs. -/
theorem dispatched {node : Node} (h : node.Apart c own) (hr : run.connection ≠ c)
    {onDone : Delivery → Routine Unit} (hdone : ∀ d, (onDone d).Apart c own fun _ => True) :
    (Routine.task do
      let result ← Routine.attempt (Routine.drive (.focus node []) run .give)
      onDone (result.map Reply.toExit)).Apart c own := by
  have hm : (Machine.focus node []).Apart c own := .focus h fun _ h => absurd h List.not_mem_nil
  exact task ((attempt (drive hm hr _ fun _ hr => .give hr)).bind fun _ _ => hdone _)

theorem spawn {node : Node} (h : node.Apart c own) (hr : run.connection ≠ c)
    {onDone : Delivery → Routine Unit} (hdone : ∀ d, (onDone d).Apart c own fun _ => True) :
    Apart c own (fun _ => True) (Routine.spawn node run onDone) :=
  execute _ (dispatched h hr hdone)

end Routine.Apart

namespace Group

open Routine.Apart

/-- The group's connections are its own. -/
def Apart (c : ConnectionId) (g : Group) : Prop := ∀ d ∈ g.connections, d ≠ c

variable {g : Group}

theorem Apart.getD (hg : g.Apart c) (h0 : c ≠ .uncancelable) (index : Nat) :
    g.connections.getD index .uncancelable ≠ c := by
  rw [List.getD_eq_getElem?_getD]
  cases hd : g.connections[index]? with
  | none => exact h0.symm
  | some d => exact hg d (List.mem_of_getElem? hd)

theorem fresh_apart (branches : Nat) : (fresh branches).Apart c own (Apart c) := by
  refine (collect fun _ _ => ?_).bind fun connections h => (ask rfl).bind fun _ _ => ret h
  exact reads (.plain rfl) fun _ hr => hr.2

theorem claim_apart (cell : CellId) (index : Nat) :
    (cell.claim index).Apart c own fun _ => True := by
  refine (ask rfl).bind fun seen _ => ?_
  split
  · exact ret trivial
  · exact ask rfl

theorem report_apart (g : Group) (index : Nat) (callback : LatchId) (exit : Delivery) :
    (g.report index callback exit).Apart c own fun _ => True := by
  have hfail : (g.fail index).Apart c own fun _ => True := by
    refine (claim_apart g.firstFailure index).bind fun first _ => ?_
    cases first with
    | true => exact forEach fun d _ => cancel d
    | false => exact ret trivial
  rcases exit with message | (v | e | _)
  · exact hfail.bind fun _ _ => deliver callback _
  · exact deliver callback _
  · exact hfail.bind fun _ _ => deliver callback _
  · exact hfail.bind fun _ _ => deliver callback _

theorem supervise_apart (hg : g.Apart c) (h0 : c ≠ .uncancelable) (hr : run.connection ≠ c)
    {branches : List Node} (h : ∀ n ∈ branches, n.Apart c own) :
    (g.supervise run branches).Apart c own fun _ => True := by
  refine (push hr (task (forEach fun d _ => cancel d))).bind fun _ _ => ?_
  refine (collect (Q := fun _ => True) fun branch hbranch => ?_).bind fun callbacks _ => ?_
  · refine (ask rfl).bind fun callback _ => (ask rfl).bind fun context _ => ?_
    refine (spawn (h _ ?_) ?_ (g.report_apart branch.2 callback)).bind fun _ _ => ret trivial
    · exact List.fst_mem_of_mem_zipIdx hbranch
    · exact hg.getD h0 branch.2
  · refine (collect (Q := fun _ => True) fun l _ => wait l).bind fun exits _ => ?_
    exact (pop hr).bind fun _ _ => ret trivial

theorem code_apart (h0 : c ≠ .uncancelable) (hr : run.connection ≠ c) {branches : List Node}
    (h : ∀ n ∈ branches, n.Apart c own) {finish : List Value → Code}
    (hf : ∀ vs, (finish vs).Apart c own) : (code branches finish run).Apart c own := by
  have hcode : Routine.Apart c own (fun _ => True) (do
      let g ← fresh branches.length
      let exits ← g.supervise run branches
      return (← g.firstFailure.read, exits)) :=
    (fresh_apart _).bind fun g hg => (supervise_apart hg h0 hr h).bind fun exits _ =>
      (ask rfl).bind fun _ _ => ret trivial
  refine hcode _ fun (first, exits) _ => ?_
  cases hv : values? exits with
  | some values => simpa only [hv] using hf values
  | none => simpa only [hv] using .give (Reply.not_carries_outcome _)

end Group

end Effects
