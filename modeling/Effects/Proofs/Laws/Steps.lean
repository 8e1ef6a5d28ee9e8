import Effects.Proofs.Laws.Alike

/-!
Activities that are alike keep step: what one does next is also seen of the other, in the same
world, and after it they are alike again or become so without being seen.
-/

namespace Effects

open Activity Node

/-- Both are of one kind, and what they are made of is alike. -/
inductive Node.Shaped : Node → Node → Prop
  | pure (v : Value) : Shaped (.pure v) (.pure v)
  | raise (e : Value) : Shaped (.raise e) (.raise e)
  | async (register : LatchId → Code) : Shaped (.async register) (.async register)
  | parMap (branches : List Node) (combine : List Value → Code) :
      Shaped (.parMap branches combine) (.parMap branches combine)
  | parSequence (branches : List Node) : Shaped (.parSequence branches) (.parSequence branches)
  | suspend {thunk thunk' : Code} (h : CodeAlike thunk thunk') :
      Shaped (.suspend thunk) (.suspend thunk')
  | map {inner inner' : Node} {f f' : Value → Code} (h : Alike inner inner')
      (hf : ∀ v, CodeAlike (f v) (f' v)) : Shaped (.map inner f) (.map inner' f')
  | flatMap {inner inner' : Node} {f f' : Value → Code} (h : Alike inner inner')
      (hf : ∀ v, CodeAlike (f v) (f' v)) : Shaped (.flatMap inner f) (.flatMap inner' f')
  | handleErrorWith {inner inner' : Node} {f f' : Value → Code} (h : Alike inner inner')
      (hf : ∀ e, CodeAlike (f e) (f' e)) :
      Shaped (.handleErrorWith inner f) (.handleErrorWith inner' f')
  | continueOn {inner inner' : Node} (h : Alike inner inner') (target : ContextId) :
      Shaped (.continueOn inner target) (.continueOn inner' target)
  | uncancelable {inner inner' : Node} (h : Alike inner inner') :
      Shaped (.uncancelable inner) (.uncancelable inner')
  | bracket {acquire acquire' : Node} {use use' : Value → Code}
      {release release' : Value → ExitCase Value → Code} (h : Alike acquire acquire')
      (huse : ∀ v, CodeAlike (use v) (use' v))
      (hrelease : ∀ v case, CodeAlike (release v case) (release' v case)) :
      Shaped (.bracket acquire use release) (.bracket acquire' use' release')
  | bracketUse {use use' : Value → Code} {release release' : Value → ExitCase Value → Code}
      (huse : ∀ v, CodeAlike (use v) (use' v))
      (hrelease : ∀ v case, CodeAlike (release v case) (release' v case)) (resource : Value) :
      Shaped (.bracketUse resource use release) (.bracketUse resource use' release')
  | bracketRelease {finalizer finalizer' : Node} (h : Alike finalizer finalizer') (exit : Exit) :
      Shaped (.bracketRelease finalizer exit) (.bracketRelease finalizer' exit)
  | instrument {inner inner' : Node} (h : Alike inner inner') :
      Shaped (.instrument inner) (.instrument inner')
  | loop {body body' : Value → Node} (h : ∀ v, Alike (body v) (body' v)) (seed : Value) :
      Shaped (.loop body seed) (.loop body' seed)

namespace Node

variable {node node' : Node}

theorem Shaped.refl (node : Node) : node.Shaped node := by
  cases node with
  | pure v => exact .pure v
  | raise e => exact .raise e
  | suspend thunk => exact .suspend (.refl thunk)
  | async register => exact .async register
  | map inner f => exact .map (.refl inner) fun v => .refl (f v)
  | flatMap inner f => exact .flatMap (.refl inner) fun v => .refl (f v)
  | handleErrorWith inner f => exact .handleErrorWith (.refl inner) fun e => .refl (f e)
  | continueOn inner target => exact .continueOn (.refl inner) target
  | uncancelable inner => exact .uncancelable (.refl inner)
  | bracket acquire use release =>
    exact .bracket (.refl acquire) (fun v => .refl (use v)) fun v case => .refl (release v case)
  | bracketUse resource use release =>
    exact .bracketUse (fun v => .refl (use v)) (fun v case => .refl (release v case)) resource
  | bracketRelease finalizer exit => exact .bracketRelease (.refl finalizer) exit
  | parMap branches combine => exact .parMap branches combine
  | parSequence branches => exact .parSequence branches
  | instrument inner => exact .instrument (.refl inner)
  | loop body seed => exact .loop (fun v => .refl (body v)) seed

theorem Alike.shaped_or (h : node.Alike node') : node.Shaped node' ∨ node.Meets node' := by
  cases h with
  | refl => exact .inl (.refl node)
  | law h => exact .inr h.meets
  | back h => exact .inr h.meets.symm
  | suspend h => exact .inl (.suspend h)
  | map h hf => exact .inl (.map h hf)
  | flatMap h hf => exact .inl (.flatMap h hf)
  | handleErrorWith h hf => exact .inl (.handleErrorWith h hf)
  | continueOn h target => exact .inl (.continueOn h target)
  | uncancelable h => exact .inl (.uncancelable h)
  | bracket h huse hrelease => exact .inl (.bracket h huse hrelease)
  | bracketUse huse hrelease resource => exact .inl (.bracketUse huse hrelease resource)
  | bracketRelease h exit => exact .inl (.bracketRelease h exit)
  | instrument h => exact .inl (.instrument h)
  | loop h seed => exact .inl (.loop h seed)

end Node

variable {next next' : List Cont} {fs fs' : List Frame} {a b : Activity}

namespace Activity

theorem kin_drive {m m' : Machine} (h : m.Alike m') (hfs : List.Forall₂ Frame.Alike fs fs')
    (run : Run) : Kin ⟨.drive m run, fs⟩ ⟨.drive m' run, fs'⟩ :=
  Alike.kin ⟨.drive h run, hfs⟩

theorem kin_code {code code' : Code} (h : CodeAlike code code')
    (hfs : List.Forall₂ Frame.Alike fs fs') : Kin ⟨.code code, fs⟩ ⟨.code code', fs'⟩ :=
  Alike.kin ⟨.code h, hfs⟩

theorem kin_unwinding (message : String) (hfs : List.Forall₂ Frame.Alike fs fs') :
    Kin ⟨.unwinding message, fs⟩ ⟨.unwinding message, fs'⟩ :=
  Alike.kin ⟨.unwinding message, hfs⟩

end Activity

theorem Conts.Alike.resume (h : Conts.Alike next next') (hfs : List.Forall₂ Frame.Alike fs fs')
    (w : World) (exit : Exit) (run : Run) :
    Kin (after (Machine.resume w.everywhere exit next run) fs)
      (after (Machine.resume w.everywhere exit next' run) fs') := by
  induction h generalizing exit with
  | nil => exact kin_code (.refl _) hfs
  | cons hcont hnext =>
    cases hcont with
    | map hf | flatMap hf | recover hf =>
      cases exit <;>
        first
          | exact kin_code (hf _) (.cons (.node hnext run) hfs)
          | exact kin_drive (.unwind _ hnext) hfs run
    | switch | restore => exact kin_drive (.unwind _ hnext) hfs _
  | @twins front front' next next' htwins hnext ih =>
    -- both fronts come to the same, over continuations that are alike
    obtain ⟨l, hl, hl'⟩ := htwins exit
    have hresume : ∀ exit next, Machine.resume w.everywhere exit next run =
        Machine.resume World.start.everywhere exit next run := Machine.resume_current rfl
    rw [hresume, hresume]
    refine Kin.of_glides ?_ (hl next run fs) (hl' next' run fs')
    cases l with
    | goes node more => exact kin_drive (.focus (.refl node) (hnext.append more)) hfs run
    | passes exit' =>
      have hih := ih exit'
      rwa [hresume, hresume] at hih

theorem Node.Shaped.step {node node' : Node} (h : node.Shaped node')
    (hnext : Conts.Alike next next') (hfs : List.Forall₂ Frame.Alike fs fs') (w : World)
    (run : Run) : Kin (after ((Machine.focus node next).step w.everywhere run) fs)
      (after ((Machine.focus node' next').step w.everywhere run) fs') := by
  have hframe : List.Forall₂ Frame.Alike (.node next run :: fs) (.node next' run :: fs') :=
    .cons (.node hnext run) hfs
  cases h with
  | pure v => exact hnext.resume hfs w (.completed v) run
  | raise e => exact hnext.resume hfs w (.errored e) run
  | async | parMap | parSequence => exact kin_code (.refl _) hframe
  | suspend h => exact kin_code h hframe
  | map h hf => exact kin_drive (.focus h (.cons (.map hf) hnext)) hfs run
  | flatMap h hf => exact kin_drive (.focus h (.cons (.flatMap hf) hnext)) hfs run
  | handleErrorWith h hf => exact kin_drive (.focus h (.cons (.recover hf) hnext)) hfs run
  | continueOn h target => exact kin_drive (.focus h (.cons (.switch target) hnext)) hfs run
  | uncancelable h =>
    exact kin_drive (.focus h (.cons (.restore run.connection) hnext)) hfs (Machine.shielded run)
  | bracket h huse hrelease =>
    simp only [Machine.step]
    split
    · exact hnext.resume hfs w .canceled run
    · exact kin_drive (.focus h .nil) (.cons (.acquiring huse hrelease run.connection hnext) hfs) _
  | bracketUse huse hrelease resource =>
    simp only [Machine.step]
    split
    · have hfinalizer := Node.Alike.suspend (hrelease resource .canceled)
      exact kin_drive (.focus (.bracketRelease hfinalizer .canceled) hnext) hfs run
    · exact kin_code (huse resource) (.cons (.opening resource hrelease hnext run) hfs)
  | bracketRelease h exit =>
    exact kin_drive (.focus h .nil) (.cons (.releasing exit run.connection hnext) hfs) _
  | instrument h => exact kin_drive (.focus h .nil) (.cons (.instrumented hnext) hfs) run
  | loop h seed =>
    have hround : ∀ v, Node.Alike (Machine.nextRound _ v) (Machine.nextRound _ v) := fun v => by
      unfold Machine.nextRound
      split
      · exact .loop h _
      · exact .refl _
    exact kin_drive (.focus (.flatMap (h seed) fun v => .build (hround v)) hnext) hfs run

namespace Activity

theorem runTokens_kin {k k' : Reply → Code} (hk : ∀ r, CodeAlike (k r) (k' r))
    (hfs : List.Forall₂ Frame.Alike fs fs') (rest : List Code) (failure : Option String) :
    Kin (runTokens rest failure k fs) (runTokens rest failure k' fs') := by
  cases rest with
  | cons token rest => exact kin_code (.refl token) (.cons (.tokens rest failure hk) hfs)
  | nil =>
    cases failure with
    | none => exact kin_code (hk .unit) hfs
    | some message => exact kin_unwinding message hfs

theorem respond_kin {k k' : Reply → Code} (hk : ∀ r, CodeAlike (k r) (k' r))
    (hfs : List.Forall₂ Frame.Alike fs fs') (response : Response) :
    Kin (respond k fs response) (respond k' fs' response) := by
  cases response with
  | reply r => exact kin_code (hk r) hfs
  | panic message => exact kin_unwinding message hfs
  | call body => exact kin_code (.refl body) (.cons (.call hk) hfs)
  | inPlace body r => exact kin_code (.refl body) (.cons (.call fun _ => hk r) hfs)
  | attempt body => exact kin_code (.refl body) (.cons (.attempt hk) hfs)
  | drive machine run =>
    have hmachine : machine.Alike machine := by
      cases machine with
      | focus node next => exact .focus (.refl node) (.refl next)
      | unwind exit next => exact .unwind exit (.refl next)
    exact kin_drive hmachine (.cons (.call hk) hfs) run
  | tokens tokens => exact runTokens_kin hk hfs tokens none
  | again op => exact kin_code (.perform hk op) hfs

variable {f f' : Frame}

theorem finish_kin (h : f.Alike f') (hfs : List.Forall₂ Frame.Alike fs fs') (w : World)
    (exit : Exit) (run : Run) :
    Kin (finish w.everywhere exit run f fs) (finish w.everywhere exit run f' fs') := by
  cases h with
  | node hnext run' => exact hnext.resume hfs w exit run'
  | acquiring huse hrelease saved hnext =>
    cases exit with
    | completed resource =>
      exact kin_drive (.focus (.bracketUse huse hrelease resource) hnext) hfs _
    | errored | canceled => exact hnext.resume hfs w _ _
  | opening => exact kin_unwinding _ hfs
  | «using» resource hrelease hnext =>
    have hfinalizer := Node.Alike.suspend (hrelease resource exit.exitCase)
    exact kin_drive (.focus (.bracketRelease hfinalizer exit) hnext) hfs run
  | releasing exit' saved hnext => exact hnext.resume hfs w exit' _
  | instrumented hnext => exact hnext.resume hfs w exit run
  | call hk | attempt hk => exact kin_code (hk _) hfs
  | tokens => exact kin_unwinding _ hfs

/-- Answers that are alike: the same reply, or computations that are. -/
inductive AnswerAlike : Answer → Answer → Prop
  | refl (answer : Answer) : AnswerAlike answer answer
  | node {node node' : Node} (h : node.Alike node') : AnswerAlike (.node node) (.node node')

theorem reply_kin {answer answer' : Answer} (hanswer : AnswerAlike answer answer')
    (h : f.Alike f') (hfs : List.Forall₂ Frame.Alike fs fs') (w : World) :
    Kin (reply w.everywhere answer f fs) (reply w.everywhere answer' f' fs') := by
  have hnode : ∀ {node node' : Node}, node.Alike node' →
      Kin (reply w.everywhere (.node node) f fs) (reply w.everywhere (.node node') f' fs') := by
    intro node node' hnode
    cases h with
    | tokens rest failure hk => exact runTokens_kin hk hfs rest failure
    | node hnext run => exact kin_drive (.focus hnode hnext) hfs run
    | opening resource hrelease hnext run =>
      exact kin_drive (.focus hnode .nil) (.cons (.using resource hrelease hnext) hfs) run
    | _ => exact kin_unwinding _ hfs
  cases hanswer with
  | node h => exact hnode h
  | refl answer =>
    cases answer with
    | node node => exact hnode (.refl node)
    | token =>
      cases h with
      | tokens rest failure hk => exact runTokens_kin hk hfs rest failure
      | _ => exact kin_unwinding _ hfs
    | reply r =>
      cases r with
      | ended exit run =>
        have hfinish := finish_kin h hfs w exit run
        cases h with
        | tokens rest failure hk => exact runTokens_kin hk hfs rest failure
        | _ => exact hfinish
      | outcome exit =>
        cases h with
        | tokens rest failure hk => exact runTokens_kin hk hfs rest failure
        | node hnext run => exact hnext.resume hfs w exit run
        | call hk | attempt hk => exact kin_code (hk _) hfs
        | _ => exact kin_unwinding _ hfs
      | _ =>
        cases h with
        | tokens rest failure hk => exact runTokens_kin hk hfs rest failure
        | call hk | attempt hk => exact kin_code (hk _) hfs
        | _ => exact kin_unwinding _ hfs

theorem close_kin {answer answer' : Answer} (hanswer : AnswerAlike answer answer')
    (hfs : List.Forall₂ Frame.Alike fs fs') (w : World) :
    Kin (close w.everywhere answer fs) (close w.everywhere answer' fs') := by
  cases hfs with
  | cons h hfs => exact reply_kin hanswer h hfs w
  | nil =>
    cases hanswer with
    | node => exact Alike.kin ⟨.ended _, .nil⟩
    | refl answer => cases answer <;> exact Alike.kin ⟨.ended _, .nil⟩

theorem unwind_kin (message : String) (hfs : List.Forall₂ Frame.Alike fs fs') :
    Kin (unwind message fs) (unwind message fs') := by
  cases hfs with
  | nil => exact Alike.kin ⟨.ended _, .nil⟩
  | cons h hfs =>
    cases h with
    | attempt hk => exact kin_code (hk _) hfs
    | tokens rest failure hk => exact runTokens_kin hk hfs rest _
    | _ => exact kin_unwinding message hfs

/-- The second activity does what the first one does, on whatever thread it is. -/
structure Matches (w : World) (here here' : Place) (a b : Activity) : Prop where
  op : b.op? = a.op?
  world : (w.flow here' b).1 = (w.flow here a).1
  kin : (w.flow here a).2.Kin (w.flow here' b).2

variable {w : World} {here here' : Place}

theorem Alike.goes (h : a.Alike b) (hop : ∀ op, a.op? = some op → ¬ op.Observes)
    (hfocus : ∀ node next run, a.control = .drive (.focus node next) run →
      ∀ node' next', b.control = .drive (.focus node' next') run → node.Shaped node') :
    Matches w here here' a b := by
  obtain ⟨control, fs⟩ := a
  obtain ⟨control', fs'⟩ := b
  obtain ⟨hcontrol, hfs⟩ := h
  cases hcontrol with
  | ended r => exact ⟨rfl, rfl, Alike.kin ⟨.ended r, hfs⟩⟩
  | unwinding message => exact ⟨rfl, rfl, unwind_kin message hfs⟩
  | drive hm run =>
    cases hm with
    | unwind exit hnext => exact ⟨rfl, rfl, hnext.resume hfs w exit run⟩
    | focus _ hnext =>
      exact ⟨rfl, rfl, (hfocus _ _ _ rfl _ _ rfl).step hnext hfs w run⟩
  | code h =>
    have hperform : ∀ {op k k'}, ¬ op.Observes → (∀ r, CodeAlike (k r) (k' r)) →
        Matches w here here' ⟨.code (.perform op k), fs⟩ ⟨.code (.perform op k'), fs'⟩ := by
      intro op k k' hop hk
      have hplace : w.perform here op = w.perform here' op := w.perform_place hop here'
      refine ⟨rfl, (congrArg Prod.fst hplace).symm, ?_⟩
      show Kin (respond k fs (w.perform here op).2) (respond k' fs' (w.perform here' op).2)
      rw [hplace]
      exact respond_kin hk hfs _
    cases h with
    | build h => exact ⟨rfl, rfl, close_kin (.node h) hfs w⟩
    | perform hk op => exact hperform (hop op rfl) hk
    | refl =>
      rename_i code
      cases code with
      | give r => exact ⟨rfl, rfl, close_kin (.refl (.reply r)) hfs w⟩
      | build node => exact ⟨rfl, rfl, close_kin (.refl (.node node)) hfs w⟩
      | guard token => exact ⟨rfl, rfl, close_kin (.refl (.token token)) hfs w⟩
      | panic message => exact ⟨rfl, rfl, kin_unwinding message hfs⟩
      | perform op k => exact hperform (hop op rfl) fun r => .refl (k r)

/-- A step comes nearer to where both are alike, or is one that the other takes too. -/
def Advances (w : World) (here : Place) (a b : Activity) : Prop :=
  (∃ a', Glides a a' ∧ Kin a' b) ∨ ∃ b', GlidesTo b b' ∧ ∀ here', Matches w here here' a b'

theorem Alike.advances (h : a.Alike b) (hop : ∀ op, a.op? = some op → ¬ op.Observes) :
    Advances w here a b := by
  by_cases hmeets : ∃ node next run node' next', a.control = .drive (.focus node next) run ∧
      b.control = .drive (.focus node' next') run ∧ ¬ node.Shaped node'
  · obtain ⟨node, next, run, node', next', ha, hb, hshaped⟩ := hmeets
    obtain ⟨_, fs⟩ := a
    obtain ⟨_, fs'⟩ := b
    obtain rfl := ha
    obtain rfl := hb
    obtain ⟨hcontrol, hfs⟩ := h
    obtain ⟨hnode, hnext⟩ : node.Alike node' ∧ Conts.Alike next next' := by
      cases hcontrol with
      | drive hm => cases hm with
        | focus hnode hnext => exact ⟨hnode, hnext⟩
    obtain ⟨inner, front, front', hopens, hopens', htwins⟩ := hnode.shaped_or.resolve_left hshaped
    have hinner : Alike ⟨.drive (.focus inner (front ++ next)) run, fs⟩
        ⟨.drive (.focus inner (front' ++ next')) run, fs'⟩ :=
      ⟨.drive (.focus (.refl inner) (.twins htwins hnext)) run, hfs⟩
    -- the first one is on the way to the computation that both open, or is there
    obtain heq | ⟨a', ha', hrest⟩ := (hopens next run fs).cases_head
    · rw [← heq] at hinner
      refine .inr ⟨_, hopens' next' run fs', fun here' => hinner.goes hop fun n _ _ hn n' _ hn' => ?_⟩
      cases heq ▸ hn
      cases hn'
      exact .refl inner
    · exact .inl ⟨a', ha', _, _, hrest, hopens' next' run fs', hinner⟩
  · refine .inr ⟨b, .refl, fun here' => h.goes hop fun node next run ha node' next' hb => ?_⟩
    exact Classical.byContradiction fun hs => hmeets ⟨node, next, run, node', next', ha, hb, hs⟩

theorem Kin.advances (h : a.Kin b) (hop : ∀ op, a.op? = some op → ¬ op.Observes) :
    Advances w here a b := by
  obtain ⟨a', b', ha, hb, hab⟩ := h
  obtain rfl | ⟨c, hac, hca⟩ := Relation.ReflTransGen.cases_head ha
  · obtain ⟨c, hc, hcb⟩ | ⟨d, hd, hmatches⟩ : Advances w here a b' := hab.advances hop
    · exact .inl ⟨c, hc, hcb.of_glides .refl hb⟩
    · exact .inr ⟨d, hb.trans hd, hmatches⟩
  · exact .inl ⟨c, hac, a', b', hca, hb, hab⟩

end Activity

end Effects
