import Effects.Proofs.Shield.Apart
import Effects.Proofs.Shield.Calm

/-!
What a run itself does with its connection: while it waits, for a callback or for the branches of a
group, it has one token there, and it takes that one off again before it goes on. Others have
nothing to do with the connection, but that they may cancel it.
-/

namespace Effects

section Codes

section

variable (c : ConnectionId) (own : FiberId → Prop)

/-- With so many tokens of its own on the connection, the code takes them off before it answers. -/
inductive Code.Balanced : Nat → Code → Prop
  | give {r : Reply} (h : ¬ r.Carries c) : Code.Balanced 0 (.give r)
  | build {n : Node} (h : n.Apart c own) : Code.Balanced 0 (.build n)
  | guard {token : Option Code} (h : ∀ t, token = some t → t.Apart c own) :
      Code.Balanced 0 (.guard token)
  | panic {depth : Nat} (message : String) : Code.Balanced depth (.panic message)
  | asks {depth : Nat} {next : Reply → Code} (h : ∀ r, Code.Balanced depth (next r)) :
      Code.Balanced depth (.perform (.connection c .isCanceled) next)
  | push {depth : Nat} {token : Code} {next : Reply → Code} (ht : token.Apart c own)
      (h : ∀ r, Code.Balanced (depth + 1) (next r)) :
      Code.Balanced depth (.perform (.connection c (.push token)) next)
  | pop {depth : Nat} {next : Reply → Code} (h : ∀ r, Code.Balanced depth (next r)) :
      Code.Balanced (depth + 1) (.perform (.connection c .pop) next)
  | perform {depth : Nat} {op : Op} {next : Reply → Code} (ho : op.Apart c own)
      (h : ∀ r, op.Answers c own r → Code.Balanced depth (next r)) :
      Code.Balanced depth (.perform op next)

/-- Starts with so many tokens on the connection and ends with so many, and with a result of which
`P` is true. -/
def Routine.Balanced {α : Type} (before after : Nat) (P : α → Prop) (r : Routine α) : Prop :=
  ∀ k : α → Code, (∀ a, P a → (k a).Balanced c own after) → (r k).Balanced c own before

end

variable {c d : ConnectionId} {own : FiberId → Prop} {α β : Type} {depth i j k : Nat}

theorem Code.Apart.balanced : {x : Code} → x.Apart c own → x.Balanced c own 0
  | .give _, .give h => .give h
  | .build _, .build h => .build h
  | .guard _, .guard h => .guard h
  | .panic message, _ => .panic message
  | .perform _ _, .perform ho h => .perform ho fun r hr => (h r hr).balanced

theorem Code.Apart.andThen_balanced {k : Answer → Code}
    (h : ∀ a, a.Apart c own → (k a).Balanced c own 0) :
    (x : Code) → x.Apart c own → (x.andThen k).Balanced c own 0
  | .give _, .give hr => h _ (.reply hr)
  | .build _, .build hn => h _ (.node hn)
  | .guard _, .guard ht => h _ (.token ht)
  | .panic message, _ => .panic message
  | .perform _ next, .perform ho hnext =>
      .perform ho fun r hr => andThen_balanced h (next r) (hnext r hr)

namespace Routine.Balanced

variable {P : α → Prop} {Q : β → Prop} {op : Op} {run : Run}

theorem ret {a : α} (h : P a) : Balanced c own k k P (Pure.pure a) := fun _ hk => hk a h

theorem bind {r : Routine α} {f : α → Routine β} (hr : r.Balanced c own i j P)
    (hf : ∀ a, P a → (f a).Balanced c own j k Q) : Balanced c own i k Q (r >>= f) :=
  fun next hnext => hr _ fun a ha => hf a ha next hnext

theorem reads {f : Reply → α} (h : op.Apart c own) (hP : ∀ r, op.Answers c own r → P (f r)) :
    Balanced c own k k P (do return f (← Routine.perform op)) :=
  fun _ hnext => .perform h fun r hr => hnext _ (hP r hr)

theorem ask {f : Reply → α} (h : op.isPlain = true) :
    Balanced c own k k (fun _ => True) (do return f (← Routine.perform op)) :=
  reads (.plain h) fun _ _ => trivial

theorem done (h : op.Apart c own) :
    Balanced c own k k (fun _ => True) (do let _ ← Routine.perform op) :=
  reads h fun _ _ => trivial

theorem rethrow (r : Except String α) :
    Balanced c own k k (fun _ => True) (Routine.rethrow r) := by
  cases r with
  | ok a => exact ret trivial
  | error message => exact fun _ _ => .panic message

theorem embed {x : Code} (h : x.Apart c own) :
    Balanced c own 0 0 (fun a => a.Apart c own) (Routine.embed x) :=
  fun _ hnext => Code.Apart.andThen_balanced hnext x h

theorem collect {f : α → Routine β} {l : List α} (h : ∀ a ∈ l, (f a).Balanced c own k k Q) :
    Balanced c own k k (fun bs => ∀ b ∈ bs, Q b) (Routine.collect f l) := by
  induction l with
  | nil => exact ret fun _ h => absurd h List.not_mem_nil
  | cons a rest ih =>
    obtain ⟨ha, hrest⟩ := List.forall_mem_cons.1 h
    refine ha.bind fun b hb => (ih hrest).bind fun bs hbs => ret ?_
    exact List.forall_mem_cons.2 ⟨hb, hbs⟩

theorem wait (l : LatchId) : Balanced c own k k (fun _ => True) l.wait :=
  (ask rfl).bind fun result _ => (rethrow result).bind fun _ _ => ret trivial

theorem asks : Balanced c own k k (fun _ => True) c.isCanceled :=
  fun _ hnext => .asks fun _ => hnext _ trivial

theorem push {token : Code} (h : token.Apart c own) :
    Balanced c own k (k + 1) (fun _ => True) (c.push token) :=
  fun _ hnext => .push h fun _ => hnext _ trivial

theorem pop : Balanced c own (k + 1) k (fun _ => True) c.pop :=
  fun _ hnext => .pop fun _ => hnext _ trivial

/-- The token is on the connection for as long as the run waits. -/
theorem suspend {register : LatchId → Code} (h : ∀ l, (register l).Apart c own) :
    Balanced c own 0 0 (fun _ => True) (Routine.suspend register c) := by
  refine asks.bind fun canceled _ => ?_
  cases canceled with
  | true => exact ret trivial
  | false =>
    refine (ask rfl).bind fun l _ => (embed (h l)).bind fun answer hanswer => ?_
    cases hanswer with
    | reply | node => exact wait l
    | @token t ht =>
      cases t with
      | none => exact wait l
      | some token =>
        refine (push (ht token rfl)).bind fun _ _ => (wait l).bind fun exit _ => ?_
        exact pop.bind fun _ _ => ret trivial

end Routine.Balanced

namespace Group

open Routine.Balanced

variable {g : Group} {run : Run} {branches : List Node}

theorem fresh_balanced (n : Nat) : (fresh n).Balanced c own k k (Apart c) := by
  refine (collect fun _ _ => ?_).bind fun connections h => (ask rfl).bind fun _ _ => ret h
  exact reads (.plain rfl) fun _ hr => hr.2

theorem forkBranch_balanced (hg : g.Apart c) (h0 : c ≠ .uncancelable) (context : ContextId)
    {branch : Node × Nat} (h : branch.1.Apart c own) :
    (g.forkBranch context branch).Balanced c own k k fun _ => True := by
  refine (ask rfl).bind fun callback _ => (ask rfl).bind fun context' _ => ?_
  refine (done (.execute context' ?_)).bind fun _ _ => ret trivial
  exact Routine.Apart.dispatched h (hg.getD h0 branch.2) (g.report_apart branch.2 callback)

/-- The token is on the connection from before the first branch is dispatched until the last one has
stopped. -/
theorem supervise_balanced (hg : g.Apart c) (h0 : c ≠ .uncancelable) (hr : run.connection = c)
    (h : ∀ n ∈ branches, n.Apart c own) :
    (g.supervise run branches).Balanced c own 0 0 fun _ => True := by
  subst hr
  have hcancel : (Routine.task g.cancelAll).Apart run.connection own :=
    Routine.Apart.task (Routine.Apart.forEach fun d _ => Routine.Apart.cancel d)
  refine (push hcancel).bind fun _ _ => ?_
  refine (collect (Q := fun _ => True) fun branch hbranch => ?_).bind fun callbacks _ => ?_
  · exact forkBranch_balanced hg h0 _ (h _ (List.fst_mem_of_mem_zipIdx hbranch))
  · refine (collect (Q := fun _ => True) fun l _ => wait l).bind fun exits _ => ?_
    exact pop.bind fun _ _ => ret trivial

theorem code_balanced (h0 : c ≠ .uncancelable) (hr : run.connection = c)
    (h : ∀ n ∈ branches, n.Apart c own) {finish : List Value → Code}
    (hf : ∀ vs, (finish vs).Apart c own) : (code branches finish run).Balanced c own 0 := by
  have hcode : Routine.Balanced c own 0 0 (fun _ => True) (do
      let g ← fresh branches.length
      let exits ← g.supervise run branches
      return (← g.firstFailure.read, exits)) :=
    (fresh_balanced _).bind fun g hg => (supervise_balanced hg h0 hr h).bind fun exits _ =>
      (ask rfl).bind fun _ _ => ret trivial
  refine hcode _ fun (first, exits) _ => ?_
  cases hv : values? exits with
  | some values => simpa only [hv] using (hf values).balanced
  | none => simpa only [hv] using .give (Reply.not_carries_outcome _)

end Group

end Codes

section Worlds

section

variable (c : ConnectionId) (own : FiberId → Prop)

/-- The connection is kept by its own run and is in this state. -/
structure World.Kept (s : Connection Code) (w : World) : Prop where
  apart : (w.calm c).Apart c own
  state : w.connections[c]? = some s
  tokens : ∀ x ∈ s.tokens, x.Apart c own
  immune : w.connections[ConnectionId.uncancelable]? = some .uncancelable

end

/-- As before, or as canceling leaves it. -/
def Connection.Spared {τ : Type} (s s' : Connection τ) : Prop := s' = s ∨ s' = s.cancel.1

variable {c d : ConnectionId} {own : FiberId → Prop} {w : World} {here : Place} {op : Op}
  {s s' : Connection Code} {a : Activity}

theorem Connection.Spared.refl {τ : Type} (s : Connection τ) : s.Spared s := .inl rfl

namespace World

theorem perform_immune (h : w.connections[ConnectionId.uncancelable]? = some .uncancelable)
    (here : Place) (op : Op) :
    (w.perform here op).1.connections[ConnectionId.uncancelable]? = some .uncancelable := by
  by_cases hop : ∃ op', op = .connection .uncancelable op'
  · obtain ⟨op', rfl⟩ := hop
    refine (onConnection_self h op').trans ?_
    cases op' <;> rfl
  · exact perform_connection h fun op' h => hop ⟨op', h⟩

theorem act_immune (h : w.connections[ConnectionId.uncancelable]? = some .uncancelable)
    (here : Place) (a : Activity) :
    (w.act here a).1.connections[ConnectionId.uncancelable]? = some .uncancelable := by
  rw [act_world]
  cases a.op? with
  | none => exact h
  | some op => exact perform_immune h here op

namespace Kept

theorem lt_size (h : w.Kept c own s) : c < w.connections.size :=
  (Array.getElem?_eq_some_iff.1 h.state).1

theorem setConnection (h : w.Kept c own s) (h0 : c ≠ .uncancelable)
    (hs : ∀ x ∈ s'.tokens, x.Apart c own) : (w.setConnection c s').Kept c own s' where
  apart := (calm_setConnection w s').symm ▸ h.apart
  state := setConnection_getElem? h.state s'
  tokens := hs
  immune := by simpa [World.setConnection, h0] using h.immune

/-- Nothing but the connection's state is different. -/
theorem of_calm (h : w.Kept c own s) {w' : World} (ha : (w'.calm c).Apart c own)
    (hc : w'.connections[c]? = some s)
    (hu : w'.connections[ConnectionId.uncancelable]? = some .uncancelable) : w'.Kept c own s :=
  ⟨ha, hc, h.tokens, hu⟩

theorem cancel_tokens (s : Connection Code) : ∀ x ∈ s.cancel.1.tokens, x.Apart c own := by
  rw [Connection.tokens_cancel]
  exact fun _ h => absurd h List.not_mem_nil

theorem connection_cancel (h : w.Kept c own s) :
    w.onConnection c .cancel = (w.setConnection c s.cancel.1, .tokens s.tokens) := by
  simp [onConnection, h.state]

theorem perform (h : w.Kept c own s) (h0 : c ≠ .uncancelable) (ho : op.Apart c own)
    (here : Place) :
    (∃ s', (w.perform here op).1.Kept c own s' ∧ s.Spared s') ∧
      (w.perform here op).2.Apart c own op := by
  by_cases hc : ∃ op', op = .connection c op'
  · obtain ⟨op', rfl⟩ := hc
    obtain rfl : op' = .cancel := by
      cases ho with
      | plain h => cases h
      | connection hd => exact absurd rfl hd
      | cancel => rfl
    rw [World.perform, h.connection_cancel]
    refine ⟨⟨_, h.setConnection h0 (cancel_tokens s), .inr rfl⟩, .tokens h.tokens ⟨?_, trivial⟩⟩
    exact Reply.not_carries_unit
  · have hop : ∀ op', op ≠ .connection c op' := fun op' h => hc ⟨op', h⟩
    have hperform : (w.calm c).perform here op = _ := perform_setConnection h.lt_size _ hop
    obtain ⟨hworld, hresponse⟩ := perform_apart h.apart h0 here ho
    rw [hperform] at hworld hresponse
    have hstate : (w.perform here op).1.connections[c]? = some s :=
      perform_connection h.state hop
    exact ⟨⟨s, h.of_calm hworld hstate (perform_immune h.immune here op), .refl s⟩, hresponse⟩

/-- A step of whoever has nothing to do with the connection. -/
theorem act (h : w.Kept c own s) (h0 : c ≠ .uncancelable) (ha : a.Elsewhere c own) (here : Place) :
    (∃ s', (w.act here a).1.Kept c own s' ∧ s.Spared s') ∧
      (w.act here a).2.Elsewhere c own := by
  by_cases hop : ∀ op, a.op? = some op → ∀ op', op ≠ .connection c op'
  · have hover : w.Overlooks here c a := overlooks_of hop fun _ _ => ha.drives
    have hact : (w.calm c).act here a = _ := act_setConnection h.lt_size _ hover
    obtain ⟨hworld, helse⟩ := act_elsewhere h.apart h0 ha here
    rw [hact] at hworld helse
    have hstate : (w.act here a).1.connections[c]? = some s := act_connection h.state here hop
    exact ⟨⟨s, h.of_calm hworld hstate (act_immune h.immune here a), .refl s⟩, helse⟩
  · simp only [Classical.not_forall, not_not] at hop
    obtain ⟨op, hop, op', rfl⟩ := hop
    cases ha with
    | @code x fs hx hb =>
      cases hx with
      | perform ho hnext =>
        obtain rfl := Option.some.inj hop
        obtain ⟨hworld, hresponse⟩ := h.perform h0 ho here
        exact ⟨hworld, Activity.respond_apart hnext hresponse hb⟩
      | _ => cases hop
    | _ => cases hop

theorem setActivity (h : w.Kept c own s) (t : ThreadId) (ha : a.Elsewhere c own) :
    (w.setActivity t a).Kept c own s :=
  h.of_calm (h.apart.setActivity t ha) h.state h.immune

theorem takes (h : w.Kept c own s) {role : Role} {w' : World} {task : Option Code}
    (ht : w.Takes role w' task) : w'.Kept c own s ∧ ∀ x, task = some x → x.Apart c own := by
  obtain ⟨hworld, htask⟩ := (ht.calm c).apart h.apart
  obtain ⟨-, hconnections⟩ := ht.kept
  exact ⟨h.of_calm hworld (hconnections ▸ h.state) (hconnections ▸ h.immune), htask⟩

/-- A step of another thread. -/
theorem step (h : w.Kept c own s) (h0 : c ≠ .uncancelable) (t : ThreadId) :
    ∃ s', (w.step t).Kept c own s' ∧ s.Spared s' := by
  generalize hu : w.step t = u
  cases steps_of_step hu with
  | stays => exact ⟨s, h, .refl s⟩
  | retires => exact ⟨s, h.of_calm (h.apart.retire t) h.state h.immune, .refl s⟩
  | skips _ htakes => exact ⟨s, (h.takes htakes).1, .refl s⟩
  | begins _ htakes =>
    obtain ⟨hworld, htask⟩ := h.takes htakes
    exact ⟨s, hworld.setActivity t (.start (htask _ rfl)), .refl s⟩
  | @acts thread ht =>
    have hactivity := h.apart.threads thread (Array.mem_of_getElem? ht)
    obtain ⟨⟨s', hworld, hs⟩, hacts⟩ := h.act h0 hactivity thread.place
    exact ⟨s', hworld.setActivity t hacts, hs⟩

end Kept
end World

end Worlds

end Effects
