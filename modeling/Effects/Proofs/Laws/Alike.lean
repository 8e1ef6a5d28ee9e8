import Effects.Proofs.Laws.Flow

/-!
The laws of sequencing. The two sides of a law open the same computation over other continuations,
and these do the same with the exit of it. Programs are alike that differ in places where one has
the left side of a law and the other has the right side, and so is what they are in the midst of
running.
-/

namespace Effects

section Sides

open Activity

/-- What continuations make of an exit: they go on with a computation, over some of them, or pass an
exit on. -/
inductive Landing where
  | goes (node : Node) (more : List Cont)
  | passes (exit : Exit)

def Landing.at (next : List Cont) (run : Run) (fs : List Frame) : Landing → Activity
  | .goes node more => ⟨.drive (.focus node (more ++ next)) run, fs⟩
  | .passes exit => after (Machine.resume World.start.everywhere exit next run) fs

/-- Handed the exit, the continuations come to this, whatever lies below them. -/
def Lands (front : List Cont) (exit : Exit) (l : Landing) : Prop :=
  ∀ next run fs, GlidesTo (after (Machine.resume World.start.everywhere exit (front ++ next) run) fs)
    (l.at next run fs)

/-- Both come to the same. -/
def Twins (front front' : List Cont) : Prop := ∀ exit, ∃ l, Lands front exit l ∧ Lands front' exit l

/-- The computation is another one with these continuations. -/
def Node.Opens (node inner : Node) (front : List Cont) : Prop :=
  ∀ next run fs, GlidesTo ⟨.drive (.focus node next) run, fs⟩
    ⟨.drive (.focus inner (front ++ next)) run, fs⟩

/-- The computations are one and the same with continuations that come to the same. -/
def Node.Meets (node node' : Node) : Prop :=
  ∃ inner front front', node.Opens inner front ∧ node'.Opens inner front' ∧ Twins front front'

namespace Lands

variable {front more : List Cont} {exit : Exit} {l : Landing} {node inner : Node} {v e : Value}

theorem nil (exit : Exit) : Lands [] exit (.passes exit) := fun _ _ _ => .refl

theorem flatMap_completed (f : Value → Node) (front : List Cont) (v : Value) :
    Lands (.flatMap (fun v => .build (f v)) :: front) (.completed v) (.goes (f v) front) :=
  fun _ _ _ => .single (glides_build _ _ _ _)

theorem map_completed (f : Value → Node) (front : List Cont) (v : Value) :
    Lands (.map (fun v => .build (f v)) :: front) (.completed v) (.goes (f v) front) :=
  fun _ _ _ => .single (glides_build _ _ _ _)

theorem recover_errored (f : Value → Node) (front : List Cont) (e : Value) :
    Lands (.recover (fun e => .build (f e)) :: front) (.errored e) (.goes (f e) front) :=
  fun _ _ _ => .single (glides_build _ _ _ _)

/-- A continuation that hands on the exit. -/
theorem cons {cont : Cont}
    (hcont : ∀ next run, Machine.resume World.start.everywhere exit (cont :: next) run =
      .go (.unwind exit next) run) (h : Lands front exit l) : Lands (cont :: front) exit l := by
  intro next run fs
  rw [List.cons_append, hcont]
  exact .head (glides_resume fun _ => rfl) (h next run fs)

theorem opens (h : Lands front exit (.goes node more)) {more' : List Cont}
    (hopens : node.Opens inner more') : Lands front exit (.goes inner (more' ++ more)) := by
  intro next run fs
  have hall := (h next run fs).trans (hopens (more ++ next) run fs)
  rwa [← List.append_assoc] at hall

theorem of_pure (h : Lands front exit (.goes (.pure v) more)) (hmore : Lands more (.completed v) l) :
    Lands front exit l := fun next run fs =>
  (h next run fs).trans (.head (glides_resume fun _ => rfl) (hmore next run fs))

theorem of_raise (h : Lands front exit (.goes (.raise e) more)) (hmore : Lands more (.errored e) l) :
    Lands front exit l := fun next run fs =>
  (h next run fs).trans (.head (glides_resume fun _ => rfl) (hmore next run fs))

end Lands

namespace Node

variable {node node' inner : Node}

theorem Opens.refl (node : Node) : node.Opens node [] := fun _ _ _ => .refl

theorem Opens.trans {front front' : List Cont} (h : node.Opens node' front)
    (h' : node'.Opens inner front') : node.Opens inner (front' ++ front) := by
  intro next run fs
  have hall := (h next run fs).trans (h' (front ++ next) run fs)
  rwa [← List.append_assoc] at hall

theorem opens_map (inner : Node) (f : Value → Code) : (Node.map inner f).Opens inner [.map f] :=
  fun _ _ _ => .single (glides_go fun _ => rfl)

theorem opens_flatMap (inner : Node) (f : Value → Code) :
    (Node.flatMap inner f).Opens inner [.flatMap f] :=
  fun _ _ _ => .single (glides_go fun _ => rfl)

theorem opens_handleErrorWith (inner : Node) (f : Value → Code) :
    (Node.handleErrorWith inner f).Opens inner [.recover f] :=
  fun _ _ _ => .single (glides_go fun _ => rfl)

theorem Meets.symm : node.Meets node' → node'.Meets node
  | ⟨inner, front, front', h, h', hfront⟩ => ⟨inner, front', front, h', h, fun exit =>
      (hfront exit).imp fun _ => And.symm⟩

end Node

namespace Effect

/-- What sequencing is to satisfy, in the written form of errors and values. -/
inductive Law : Effect Value Value → Effect Value Value → Prop
  | flatMap_assoc (m : Effect Value Value) (f g : Value → Effect Value Value) :
      Law ((m.flatMap f).flatMap g) (m.flatMap fun v => (f v).flatMap g)
  | flatMap_pure (m : Effect Value Value) : Law (m.flatMap pure) m
  | pure_flatMap (a : Value) (f : Value → Effect Value Value) : Law ((pure a).flatMap f) (f a)
  | map_eq (m : Effect Value Value) (u : Value → Value) :
      Law (m.map u) (m.flatMap fun v => pure (u v))
  | handle_assoc (m : Effect Value Value) (f g : Value → Effect Value Value) :
      Law ((m.handleErrorWith f).handleErrorWith g)
        (m.handleErrorWith fun e => (f e).handleErrorWith g)
  | attempt_ofExcept (m : Effect Value Value) : Law (m.attempt.flatMap ofExcept) m

theorem twins_assoc (f g : Value → Node) :
    Twins [.flatMap fun v => .build (f v), .flatMap fun v => .build (g v)]
      [.flatMap fun v => .build (.flatMap (f v) fun u => .build (g u))] := by
  intro exit
  cases exit with
  | completed v =>
    have hwhole := Lands.flatMap_completed (fun v => (f v).flatMap fun u => .build (g u)) [] v
    exact ⟨_, .flatMap_completed f _ v, hwhole.opens (Node.opens_flatMap _ _)⟩
  | errored | canceled =>
    exact ⟨_, .cons (fun _ _ => rfl) (.cons (fun _ _ => rfl) (.nil _)),
      .cons (fun _ _ => rfl) (.nil _)⟩

theorem twins_handle (f g : Value → Node) :
    Twins [.recover fun e => .build (f e), .recover fun e => .build (g e)]
      [.recover fun e => .build (.handleErrorWith (f e) fun d => .build (g d))] := by
  intro exit
  cases exit with
  | errored e =>
    have hwhole := Lands.recover_errored (fun e => (f e).handleErrorWith fun d => .build (g d)) [] e
    exact ⟨_, .recover_errored f _ e, hwhole.opens (Node.opens_handleErrorWith _ _)⟩
  | completed | canceled =>
    exact ⟨_, .cons (fun _ _ => rfl) (.cons (fun _ _ => rfl) (.nil _)),
      .cons (fun _ _ => rfl) (.nil _)⟩

theorem twins_map (f : Value → Node) :
    Twins [.map fun v => .build (f v)] [.flatMap fun v => .build (f v)] := by
  intro exit
  cases exit with
  | completed v => exact ⟨_, .map_completed f [] v, .flatMap_completed f [] v⟩
  | errored | canceled => exact ⟨_, .cons (fun _ _ => rfl) (.nil _), .cons (fun _ _ => rfl) (.nil _)⟩

theorem twins_pure : Twins [.flatMap fun v => .build (.pure v)] [] := by
  intro exit
  refine ⟨_, ?_, .nil exit⟩
  cases exit with
  | completed v => exact (Lands.flatMap_completed .pure [] v).of_pure (.nil _)
  | errored | canceled => exact .cons (fun _ _ => rfl) (.nil _)

/-- What `attempt` makes of a value or an error, followed by what `ofExcept` makes of that. -/
theorem lands_ofExcept (r : Except Value Value) :
    Lands [.flatMap fun v => .build (ofExcept (read v) : Effect Value Value).node]
      (.completed (write r)) (.goes (ofExcept r : Effect Value Value).node []) := by
  have hread := Lands.flatMap_completed (fun v => (ofExcept (read v) : Effect Value Value).node) []
    (write r)
  rwa [read_write] at hread

theorem twins_attempt : Twins
    [.map fun v => .build (.pure (write (.ok v : Except Value Value))),
      .recover fun e => .build (.pure (write (.error e : Except Value Value))),
      .flatMap fun v => .build (ofExcept (read v) : Effect Value Value).node] [] := by
  intro exit
  refine ⟨_, ?_, .nil exit⟩
  cases exit with
  | completed v =>
    have hok := Lands.map_completed (fun v => .pure (write (.ok v : Except Value Value)))
      [.recover fun e => .build (.pure (write (.error e : Except Value Value))),
        .flatMap fun v => .build (ofExcept (read v) : Effect Value Value).node] v
    exact hok.of_pure (.cons (fun _ _ => rfl) ((lands_ofExcept (.ok v)).of_pure (.nil _)))
  | errored e =>
    have herror := Lands.recover_errored (fun e => .pure (write (.error e : Except Value Value)))
      [.flatMap fun v => .build (ofExcept (read v) : Effect Value Value).node] e
    exact .cons (fun _ _ => rfl) (herror.of_pure ((lands_ofExcept (.error e)).of_raise (.nil _)))
  | canceled =>
    exact .cons (fun _ _ => rfl) (.cons (fun _ _ => rfl) (.cons (fun _ _ => rfl) (.nil _)))

theorem Law.meets {e e' : Effect Value Value} (h : Law e e') : e.node.Meets e'.node := by
  cases h with
  | flatMap_assoc m f g =>
    exact ⟨_, _, _, (Node.opens_flatMap _ _).trans (Node.opens_flatMap m.node _),
      Node.opens_flatMap _ _, twins_assoc (fun v => (f v).node) fun v => (g v).node⟩
  | flatMap_pure m => exact ⟨_, _, _, Node.opens_flatMap _ _, .refl _, twins_pure⟩
  | pure_flatMap a f =>
    refine ⟨_, [], [], fun next run fs => ?_, .refl _, fun exit => ⟨_, .nil exit, .nil exit⟩⟩
    exact .head (glides_go fun _ => rfl) (.head (glides_call fun _ => rfl)
      (.single (glides_build _ _ _ _)))
  | map_eq m u =>
    exact ⟨_, _, _, Node.opens_map _ _, Node.opens_flatMap _ _, twins_map fun v => .pure (u v)⟩
  | handle_assoc m f g =>
    exact ⟨_, _, _, (Node.opens_handleErrorWith _ _).trans (Node.opens_handleErrorWith m.node _),
      Node.opens_handleErrorWith _ _, twins_handle (fun e => (f e).node) fun e => (g e).node⟩
  | attempt_ofExcept =>
    exact ⟨_, _, [], ((Node.opens_flatMap _ _).trans (Node.opens_handleErrorWith _ _)).trans
      (Node.opens_map e'.node _), .refl _, twins_attempt⟩

end Effect

end Sides

section Programs

open Activity

namespace Node

mutual

/-- The second program is the first one with sides of laws in place of the other sides. -/
inductive Alike : Node → Node → Prop
  | refl (node : Node) : Alike node node
  | law {e e' : Effect Value Value} (h : Effect.Law e e') : Alike e.node e'.node
  | back {e e' : Effect Value Value} (h : Effect.Law e e') : Alike e'.node e.node
  | suspend {thunk thunk' : Code} (h : CodeAlike thunk thunk') :
      Alike (.suspend thunk) (.suspend thunk')
  | map {inner inner' : Node} {f f' : Value → Code} (h : Alike inner inner')
      (hf : ∀ v, CodeAlike (f v) (f' v)) : Alike (.map inner f) (.map inner' f')
  | flatMap {inner inner' : Node} {f f' : Value → Code} (h : Alike inner inner')
      (hf : ∀ v, CodeAlike (f v) (f' v)) : Alike (.flatMap inner f) (.flatMap inner' f')
  | handleErrorWith {inner inner' : Node} {f f' : Value → Code} (h : Alike inner inner')
      (hf : ∀ e, CodeAlike (f e) (f' e)) :
      Alike (.handleErrorWith inner f) (.handleErrorWith inner' f')
  | continueOn {inner inner' : Node} (h : Alike inner inner') (target : ContextId) :
      Alike (.continueOn inner target) (.continueOn inner' target)
  | uncancelable {inner inner' : Node} (h : Alike inner inner') :
      Alike (.uncancelable inner) (.uncancelable inner')
  | bracket {acquire acquire' : Node} {use use' : Value → Code}
      {release release' : Value → ExitCase Value → Code} (h : Alike acquire acquire')
      (huse : ∀ v, CodeAlike (use v) (use' v))
      (hrelease : ∀ v case, CodeAlike (release v case) (release' v case)) :
      Alike (.bracket acquire use release) (.bracket acquire' use' release')
  | bracketUse {use use' : Value → Code} {release release' : Value → ExitCase Value → Code}
      (huse : ∀ v, CodeAlike (use v) (use' v))
      (hrelease : ∀ v case, CodeAlike (release v case) (release' v case)) (resource : Value) :
      Alike (.bracketUse resource use release) (.bracketUse resource use' release')
  | bracketRelease {finalizer finalizer' : Node} (h : Alike finalizer finalizer') (exit : Exit) :
      Alike (.bracketRelease finalizer exit) (.bracketRelease finalizer' exit)
  | instrument {inner inner' : Node} (h : Alike inner inner') :
      Alike (.instrument inner) (.instrument inner')
  | loop {body body' : Value → Node} (h : ∀ v, Alike (body v) (body' v)) (seed : Value) :
      Alike (.loop body seed) (.loop body' seed)

/-- The closures perform the same operations, and build computations that are alike. -/
inductive CodeAlike : Code → Code → Prop
  | refl (code : Code) : CodeAlike code code
  | build {node node' : Node} (h : Alike node node') : CodeAlike (.build node) (.build node')
  | perform {next next' : Reply → Code} (h : ∀ r, CodeAlike (next r) (next' r)) (op : Op) :
      CodeAlike (.perform op next) (.perform op next')

end

theorem Alike.symm {node node' : Node} (h : node.Alike node') : node'.Alike node := by
  refine @Alike.rec (fun node node' _ => node'.Alike node) (fun code code' _ => CodeAlike code' code)
    ?_ ?_ ?_ ?_ ?_ ?_ ?_ ?_ ?_ ?_ ?_ ?_ ?_ ?_ ?_ ?_ ?_ node node' h
  case refine_1 => exact .refl
  case refine_2 => exact fun h => .back h
  case refine_3 => exact fun h => .law h
  case refine_4 => exact fun _ ih => .suspend ih
  case refine_5 => exact fun _ _ ih ihf => .map ih ihf
  case refine_6 => exact fun _ _ ih ihf => .flatMap ih ihf
  case refine_7 => exact fun _ _ ih ihf => .handleErrorWith ih ihf
  case refine_8 => exact fun _ target ih => .continueOn ih target
  case refine_9 => exact fun _ ih => .uncancelable ih
  case refine_10 => exact fun _ _ _ ih ihuse ihrelease => .bracket ih ihuse ihrelease
  case refine_11 => exact fun _ _ resource ihuse ihrelease => .bracketUse ihuse ihrelease resource
  case refine_12 => exact fun _ exit ih => .bracketRelease ih exit
  case refine_13 => exact fun _ ih => .instrument ih
  case refine_14 => exact fun _ seed ih => .loop ih seed
  case refine_15 => exact .refl
  case refine_16 => exact fun _ ih => .build ih
  case refine_17 => exact fun _ op ih => .perform ih op

end Node

open Node (CodeAlike)

/-- Continuations that do alike with every exit. -/
inductive Cont.Alike : Cont → Cont → Prop
  | map {f f' : Value → Code} (hf : ∀ v, CodeAlike (f v) (f' v)) : Alike (.map f) (.map f')
  | flatMap {f f' : Value → Code} (hf : ∀ v, CodeAlike (f v) (f' v)) :
      Alike (.flatMap f) (.flatMap f')
  | recover {f f' : Value → Code} (hf : ∀ e, CodeAlike (f e) (f' e)) :
      Alike (.recover f) (.recover f')
  | switch (target : ContextId) : Alike (.switch target) (.switch target)
  | restore (saved : ConnectionId) : Alike (.restore saved) (.restore saved)

inductive Conts.Alike : List Cont → List Cont → Prop
  | nil : Alike [] []
  | cons {cont cont' : Cont} {next next' : List Cont} (h : cont.Alike cont')
      (hnext : Alike next next') : Alike (cont :: next) (cont' :: next')
  | twins {front front' next next' : List Cont} (h : Twins front front') (hnext : Alike next next') :
      Alike (front ++ next) (front' ++ next')

inductive Machine.Alike : Machine → Machine → Prop
  | focus {node node' : Node} {next next' : List Cont} (h : node.Alike node')
      (hnext : Conts.Alike next next') : Alike (.focus node next) (.focus node' next')
  | unwind (exit : Exit) {next next' : List Cont} (hnext : Conts.Alike next next') :
      Alike (.unwind exit next) (.unwind exit next')

inductive Frame.Alike : Frame → Frame → Prop
  | node {next next' : List Cont} (hnext : Conts.Alike next next') (run : Run) :
      Alike (.node next run) (.node next' run)
  | acquiring {use use' : Value → Code} {release release' : Value → ExitCase Value → Code}
      {next next' : List Cont} (huse : ∀ v, CodeAlike (use v) (use' v))
      (hrelease : ∀ v case, CodeAlike (release v case) (release' v case)) (saved : ConnectionId)
      (hnext : Conts.Alike next next') :
      Alike (.acquiring use release saved next) (.acquiring use' release' saved next')
  | opening (resource : Value) {release release' : Value → ExitCase Value → Code}
      {next next' : List Cont}
      (hrelease : ∀ v case, CodeAlike (release v case) (release' v case))
      (hnext : Conts.Alike next next') (run : Run) :
      Alike (.opening resource release next run) (.opening resource release' next' run)
  | using (resource : Value) {release release' : Value → ExitCase Value → Code}
      {next next' : List Cont}
      (hrelease : ∀ v case, CodeAlike (release v case) (release' v case))
      (hnext : Conts.Alike next next') :
      Alike (.using resource release next) (.using resource release' next')
  | releasing (exit : Exit) (saved : ConnectionId) {next next' : List Cont}
      (hnext : Conts.Alike next next') :
      Alike (.releasing exit saved next) (.releasing exit saved next')
  | instrumented {next next' : List Cont} (hnext : Conts.Alike next next') :
      Alike (.instrumented next) (.instrumented next')
  | call {next next' : Reply → Code} (h : ∀ r, CodeAlike (next r) (next' r)) :
      Alike (.call next) (.call next')
  | attempt {next next' : Reply → Code} (h : ∀ r, CodeAlike (next r) (next' r)) :
      Alike (.attempt next) (.attempt next')
  | tokens (rest : List Code) (failure : Option String) {next next' : Reply → Code}
      (h : ∀ r, CodeAlike (next r) (next' r)) :
      Alike (.tokens rest failure next) (.tokens rest failure next')

inductive Control.Alike : Control → Control → Prop
  | drive {machine machine' : Machine} (h : machine.Alike machine') (run : Run) :
      Alike (.drive machine run) (.drive machine' run)
  | code {code code' : Code} (h : CodeAlike code code') : Alike (.code code) (.code code')
  | unwinding (message : String) : Alike (.unwinding message) (.unwinding message)
  | ended (result : Except String Reply) : Alike (.ended result) (.ended result)

structure Activity.Alike (a b : Activity) : Prop where
  control : a.control.Alike b.control
  stack : List.Forall₂ Frame.Alike a.stack b.stack

theorem Cont.Alike.refl (cont : Cont) : cont.Alike cont := by
  cases cont with
  | map f => exact .map fun v => .refl (f v)
  | flatMap f => exact .flatMap fun v => .refl (f v)
  | recover f => exact .recover fun e => .refl (f e)
  | switch target => exact .switch target
  | restore saved => exact .restore saved

namespace Conts.Alike

variable {next next' : List Cont}

theorem append (more : List Cont) (h : Conts.Alike next next') :
    Conts.Alike (more ++ next) (more ++ next') := by
  induction more with
  | nil => exact h
  | cons cont more ih => exact .cons (.refl cont) ih

theorem refl (next : List Cont) : Conts.Alike next next := by
  have h := append next .nil
  rwa [List.append_nil] at h

end Conts.Alike

/-- Without a step of which anything is seen, the activities become alike. -/
def Activity.Kin (a b : Activity) : Prop := ∃ a' b', GlidesTo a a' ∧ GlidesTo b b' ∧ a'.Alike b'

namespace Activity

variable {a a' b b' : Activity}

theorem Alike.kin (h : a.Alike b) : a.Kin b := ⟨a, b, .refl, .refl, h⟩

theorem Kin.of_glides (h : a'.Kin b') (ha : GlidesTo a a') (hb : GlidesTo b b') : a.Kin b := by
  obtain ⟨c, d, hc, hd, hcd⟩ := h
  exact ⟨c, d, ha.trans hc, hb.trans hd, hcd⟩

end Activity

end Programs

end Effects
