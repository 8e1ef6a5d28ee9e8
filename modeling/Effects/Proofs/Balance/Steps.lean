import Effects.Proofs.Balance.Standing

/-!
The steps of a run, as one thread that does it all would take them.
-/

namespace Effects.Evaluation

variable {c d : ConnectionId} {own : FiberId → Prop} {w : World} {here : Place}
  {s t : Connection Code} {a : Activity} {env : Surroundings} {exit : Exit} {run : Run}
  {next : List Cont} {fs : List Frame} {frame : Frame} {ds : List ConnectionId} {depth : Nat}

section Machines

/-- A machine's step leaves these evaluations open. -/
def Leads (c : ConnectionId) (own : FiberId → Prop) (w : World) (s : Connection Code)
    (t : Transition) (fs : List Frame) (ds : List ConnectionId) : Prop :=
  ∃ ds', Stands c own 0 (Activity.after t fs) ds' ∧
    Replays (scopes c s ds) (entering w t) (scopes c s ds')

theorem Leads.still {t : Transition} (h : Stands c own 0 (Activity.after t fs) ds)
    (ht : entering w t = []) : Leads c own w s t fs ds :=
  ⟨ds, h, ht ▸ .nil _⟩

theorem stands_call {x : Code} (hx : x.Balanced c own 0) (hf : Lends c own next run frame)
    (h : Opens c own run.connection next fs ds) : Stands c own 0 ⟨.code x, frame :: fs⟩ ds :=
  .called (.code hx) hf h

theorem continueInto_stands {closure : Code} (hx : closure.Apart c own)
    (h : Opens c own run.connection next fs ds) :
    Stands c own 0 (Activity.after (Machine.continueInto env closure next run) fs) ds := by
  unfold Machine.continueInto
  split
  · exact stands_call hx.balanced .node h
  · exact .focus (.suspend hx) h

theorem resume_stands (exit : Exit) (h : Opens c own run.connection next fs ds) :
    Stands c own 0 (Activity.after (Machine.resume env exit next run) fs) ds := by
  cases next with
  | nil => cases exit <;> exact .given _ h
  | cons cont rest =>
    generalize hd : run.connection = d at h
    cases h with
    | restore h => cases exit <;> exact .unwind _ h
    | cont hcont hr h =>
      subst hd
      cases hcont with
      | map hf | flatMap hf =>
        cases exit with
        | completed v => exact continueInto_stands (hf v) h
        | errored | canceled => exact .unwind _ h
      | recover hf =>
        cases exit with
        | errored e => exact continueInto_stands (hf e) h
        | completed | canceled => exact .unwind _ h
      | switch target => cases exit <;> exact .unwind _ h
      | restore => exact absurd rfl (hr _)

theorem entering_resume (w : World) (env : Surroundings) (exit : Exit) (next : List Cont)
    (run : Run) : entering w (Machine.resume env exit next run) = [] := by
  cases next with
  | nil => cases exit <;> rfl
  | cons cont rest =>
    cases cont <;> cases exit <;> simp only [Machine.resume, Machine.continueInto] <;>
      first | rfl | split <;> rfl

theorem resume_leads (exit : Exit) (h : Opens c own run.connection next fs ds) :
    Leads c own w s (Machine.resume env exit next run) fs ds :=
  .still (resume_stands exit h) (entering_resume w env exit next run)

/-- The next evaluation begins. -/
theorem enter_leads (hw : w.Kept c own s) {n : Node} (hn : n.Apart c own)
    (h : Opens c own run.connection [] (frame :: fs) (run.connection :: ds)) :
    Leads c own w s (.enter n run frame) fs ds := by
  refine ⟨_, .focus hn h, ?_⟩
  rw [entering, seen_of hw h.connection]
  exact .single (.entered _ _ _)

theorem step_leads (hw : w.Kept c own s) (h0 : c ≠ .uncancelable) {n : Node}
    (hn : n.Apart c own) (h : Opens c own run.connection next fs ds) :
    Leads c own w s ((Machine.focus n next).step env run) fs ds := by
  cases hn with
  | pure v | raise e => exact resume_leads _ h
  | suspend hx => exact .still (stands_call hx.balanced .node h) rfl
  | @async register hx =>
    refine .still (stands_call ?_ .node h) rfl
    have hgives : ∀ exit : Exit, (Code.give (.outcome exit)).Apart c own :=
      fun exit => .give (Reply.not_carries_outcome exit)
    by_cases hc : run.connection = c
    · rw [hc]
      exact Routine.Balanced.suspend hx _ fun exit _ => (hgives exit).balanced
    · exact (Routine.Apart.suspend hx hc _ fun exit _ => hgives exit).balanced
  | map hn hf => exact .still (.focus hn (.cont (.map hf) (by simp) h)) rfl
  | flatMap hn hf => exact .still (.focus hn (.cont (.flatMap hf) (by simp) h)) rfl
  | handleErrorWith hn hf => exact .still (.focus hn (.cont (.recover hf) (by simp) h)) rfl
  | continueOn target hn => exact .still (.focus hn (.cont (.switch target) (by simp) h)) rfl
  | uncancelable hn => exact .still (.focus hn (.restore h)) rfl
  | bracket ha hu hf =>
    simp only [Machine.step]
    split
    · exact resume_leads _ h
    · exact enter_leads hw ha (.acquiring hu hf h)
  | bracketUse resource hu hf =>
    simp only [Machine.step]
    split
    · exact .still (.focus (.bracketRelease _ (.suspend (hf resource _))) h) rfl
    · exact .still (stands_call (hu resource).balanced (.opening resource hf) h) rfl
  | bracketRelease exit hn => exact enter_leads hw hn (.releasing exit h)
  | parMap hbranches hf =>
    refine .still (stands_call ?_ .node h) rfl
    by_cases hc : run.connection = c
    · exact Group.code_balanced h0 hc hbranches hf
    · exact (Group.code_apart h0 hc hbranches hf).balanced
  | parSequence hbranches =>
    refine .still (stands_call ?_ .node h) rfl
    have hgives : ∀ vs, (Code.give (.outcome (.completed (.arr vs)))).Apart c own :=
      fun vs => .give (Reply.not_carries_outcome _)
    by_cases hc : run.connection = c
    · exact Group.code_balanced h0 hc hbranches hgives
    · exact (Group.code_apart h0 hc hbranches hgives).balanced
  | instrument hn => exact enter_leads hw hn (.instrumented h)
  | loop seed hb =>
    refine .still (.focus (.flatMap (hb seed) fun v => .build ?_) h) rfl
    exact Machine.nextRound_apart hb v

/-- An evaluation has ended, and the machine goes on that waits for it. -/
theorem exited_stands {t : Transition} (h : Opens c own run.connection [] (frame :: fs) (d :: ds))
    (ht : frame.exited env exit run = some t) : Stands c own 0 (Activity.after t fs) ds := by
  generalize hd : run.connection = e at h
  cases h with
  | inUse resource hf h =>
    obtain rfl := Option.some.inj ht
    subst hd
    exact .focus (.bracketRelease exit (.suspend (hf resource _))) h
  | instrumented h =>
    obtain rfl := Option.some.inj ht
    subst hd
    exact resume_stands exit h
  | acquiring hu hf h =>
    cases exit with
    | completed resource =>
      obtain rfl := Option.some.inj ht
      exact .focus (.bracketUse resource hu hf) h
    | errored | canceled =>
      obtain rfl := Option.some.inj ht
      exact resume_stands _ h
  | releasing kept h =>
    obtain rfl := Option.some.inj ht
    exact resume_stands kept h

end Machines

section Calls

variable {op : Op} {k : Reply → Code}

/-- The tokens of a connection, one after the other. -/
theorem tokens_called {rest : List Code} (failure : Option String)
    (ht : ∀ x ∈ rest, x.Apart c own) (h : (k .unit).Balanced c own depth) :
    Called c own depth (Activity.runTokens rest failure k []) := by
  cases rest with
  | nil =>
    cases failure with
    | none => exact .code h
    | some message => exact .unwinding message
  | cons token rest =>
    obtain ⟨htoken, hrest⟩ := List.forall_mem_cons.1 ht
    exact .inside (a := ⟨.code token, []⟩) (.start htoken) (.tokens failure hrest h)

theorem respond_called (hk : ∀ r, op.Answers c own r → (k r).Balanced c own depth)
    {response : Response} (h : response.Apart c own op) :
    Called c own depth (Activity.respond k [] response) := by
  cases h with
  | reply h => exact .code (hk _ h)
  | panic message => exact .unwinding message
  | @call body h hr =>
    exact .inside (a := ⟨.code body, []⟩) (.start h) (.call fun r hc => hk r (hr r hc))
  | @inPlace body r h hr =>
    exact .inside (a := ⟨.code body, []⟩) (.start h) (.call fun _ _ => hk _ hr)
  | @attempt body h hr =>
    exact .inside (a := ⟨.code body, []⟩) (.start h) (.attempt fun r hc => hk r (hr r hc))
  | @drive machine run h hc hr =>
    have hdrives : Activity.Elsewhere c own ⟨.drive machine run, []⟩ :=
      Activity.drive_apart h hc (.bottom fun _ _ h => h)
    exact .inside hdrives (.call fun r hc => hk r (hr r hc))
  | tokens h hr => exact tokens_called none h (hk _ hr)
  | again ho hr => exact .code (.perform ho fun r h => hk r (hr r h))

/-- What called code has called has come to its end. -/
theorem reply_called {answer : Answer} (ha : answer.Apart c own) (hf : Awaits c own depth frame) :
    Called c own depth (Activity.reply env answer frame []) := by
  cases hf with
  | tokens failure ht h => exact tokens_called failure ht h
  | call h =>
    cases ha with
    | @reply r hr => cases r <;> exact .code (h _ hr)
    | node | token => exact .unwinding _
  | attempt h =>
    cases ha with
    | @reply r hr =>
      have hcaught : ¬ (Reply.caught (.ok r)).Carries c :=
        Reply.not_carries_caught fun x hx => Except.ok.inj hx ▸ hr
      cases r <;> exact .code (h _ hcaught)
    | node | token => exact .unwinding _

theorem unwind_called (message : String) (hf : Awaits c own depth frame) :
    Called c own depth (Activity.unwind message [frame]) := by
  cases hf with
  | tokens failure ht h => exact tokens_called _ ht h
  | call h => exact .unwinding message
  | attempt h =>
    exact .code (h _ (Reply.not_carries_caught fun _ => by rintro ⟨⟩))

theorem Elsewhere.answer {answer : Answer}
    (h : Activity.Elsewhere c own ⟨.answering (.ok answer), []⟩) : answer.Apart c own := by
  rcases answer with r | n | t
  · cases h with
    | code hx _ =>
      cases hx with
      | give hr => exact .reply hr
  · cases h with
    | code hx _ =>
      cases hx with
      | build hn => exact .node hn
  · cases h with
    | code hx _ =>
      cases hx with
      | guard ht => exact .token ht

/-- The connection has so many tokens more than the evaluations have left there. -/
def Rests (c : ConnectionId) (own : FiberId → Prop) (t : Connection Code) (depth : Nat)
    (w : World) : Prop :=
  ∃ s, w.Kept c own s ∧ Connection.Piled depth t s

theorem Rests.spared {s : Connection Code} (hp : Connection.Piled depth t s)
    (h : ∃ s', w.Kept c own s' ∧ s.Spared s') : ∃ t', Rests c own t' depth w ∧ t.Spared t' := by
  obtain ⟨s', hw, hs⟩ := h
  obtain ⟨t', hp', ht⟩ := hp.spared hs
  exact ⟨t', ⟨s', hw, hp'⟩, ht⟩

/-- Code does to the connection what it may. -/
theorem code_act {x : Code} (hw : Rests c own t depth w) (h0 : c ≠ .uncancelable)
    (h : x.Balanced c own depth) (hs : Control.settles (.code x) = false) (here : Place) :
    ∃ depth' t', Rests c own t' depth' (w.act here ⟨.code x, []⟩).1 ∧ t.Spared t' ∧
      Called c own depth' (w.act here ⟨.code x, []⟩).2 := by
  obtain ⟨s, hw, hp⟩ := hw
  cases h with
  | give | build | guard => cases hs
  | panic message => exact ⟨_, t, ⟨s, hw, hp⟩, .refl t, .unwinding message⟩
  | asks h => exact ⟨_, t, ⟨s, hw, hp⟩, .refl t, .code (h _)⟩
  | @push _ token next ht h =>
    have hpush : ∀ x ∈ (s.push token).1.tokens, x.Apart c own := by
      cases s with
      | active tokens => exact List.forall_mem_cons.2 ⟨ht, hw.tokens⟩
      | uncancelable | canceled => exact hw.tokens
    have hrests : Rests c own t (depth + 1) (w.setConnection c (s.push token).1) :=
      ⟨_, hw.setConnection h0 hpush, hp.push token⟩
    refine ⟨depth + 1, t, ?_⟩
    simp only [World.act, World.perform, World.onConnection, hw.state, Option.getD_some]
    cases s with
    | active tokens => exact ⟨hrests, .refl t, .code (h _)⟩
    | uncancelable => exact ⟨hrests, .refl t, .code (h _)⟩
    | canceled =>
      refine ⟨hrests, .refl t, ?_⟩
      exact .inside (a := ⟨.code token, []⟩) (.start ht) (.call fun _ _ => h _)
  | @pop depth next h =>
    have hpop : ∀ x ∈ s.pop.1.tokens, x.Apart c own := by
      rcases s with _ | (_ | ⟨token, rest⟩) | _
      · exact hw.tokens
      · exact hw.tokens
      · exact (List.forall_mem_cons.1 hw.tokens).2
      · exact hw.tokens
    refine ⟨depth, t, ?_, .refl t, ?_⟩
    · simp only [World.act, World.perform, World.onConnection, hw.state, Option.getD_some]
      exact ⟨_, hw.setConnection h0 hpop, hp.pop⟩
    · exact .code (h _)
  | perform ho h =>
    obtain ⟨hworld, hresponse⟩ := hw.perform h0 ho here
    obtain ⟨t', hrests, ht⟩ := Rests.spared hp hworld
    exact ⟨_, t', hrests, ht, respond_called h hresponse⟩

/-- A step of called code, or of what that has called. -/
theorem called_act (hw : Rests c own t depth w) (h0 : c ≠ .uncancelable)
    (h : Called c own depth a) (hs : a.stack ≠ [] ∨ a.control.settles = false)
    (hacts : a.Acts w here) :
    ∃ depth' t', Rests c own t' depth' (w.act here a).1 ∧ t.Spared t' ∧
      Called c own depth' (w.act here a).2 := by
  cases h with
  | code h => exact code_act hw h0 h (hs.resolve_left fun hne => hne rfl) here
  | unwinding | lent => simp [Control.settles] at hs
  | @inside depth a frame ha hf =>
    obtain ⟨res, rfl⟩ | ⟨r, rfl⟩ | hs := a.settled_or
    · refine ⟨depth, t, ?_, .refl t, ?_⟩
      · rcases res with message | (r | n | t) <;> exact hw
      · rcases res with message | answer
        · exact unwind_called message hf
        · have hact : (w.act here ((⟨.answering (.ok answer), []⟩ : Activity).atop [frame])).2 =
              Activity.reply (w.surroundings here.home) answer frame [] := by
            rcases answer with r | n | t <;> rfl
          rw [hact]
          exact reply_called (Elsewhere.answer ha) hf
    · exact hacts.elim
    · obtain ⟨s, hw, hp⟩ := hw
      obtain ⟨hworld, ha'⟩ := hw.act h0 ha here
      obtain ⟨t', hrests, ht⟩ := Rests.spared hp hworld
      rw [World.act_atop _ _ _ _ hs]
      exact ⟨depth, t', hrests, ht, .inside ha' hf⟩

end Calls

section Runs

/-- After a step, which others may have taken part in by canceling, and what is seen of it. -/
def Goes (c : ConnectionId) (own : FiberId → Prop) (t : Connection Code) (w w' : World)
    (a : Activity) (seen : List Passage) (ds : List ConnectionId) : Prop :=
  ∃ depth t' ds', Rests c own t' depth w' ∧ t.Spared t' ∧ Stands c own depth a ds' ∧
    Replays (scopes c t ds) (seen ++ cancels c w w') (scopes c t' ds')

theorem Goes.of_rests {w' : World} {t' : Connection Code} {k : Nat} {seen : List Passage}
    {ds' : List ConnectionId} (hw : Rests c own t depth w) (hw' : Rests c own t' k w')
    (ht : t.Spared t') (ha : Stands c own k a ds')
    (hs : Replays (scopes c t ds) seen (scopes c t ds')) : Goes c own t w w' a seen ds := by
  obtain ⟨s, hs', hp⟩ := id hw
  obtain ⟨s', hw', hp'⟩ := id hw'
  exact ⟨k, t', ds', ⟨s', hw', hp'⟩, ht, ha, hs.append (cancels_replays hs' hw' hp hp' ht ds')⟩

theorem Goes.machine {n : Transition} (hw : Rests c own t 0 w)
    (h : Leads c own w t n fs ds) :
    Goes c own t w w (Activity.after n fs) (entering w n) ds := by
  obtain ⟨ds', ha, hs⟩ := h
  exact .of_rests hw hw (.refl t) ha hs

/-- A panic that comes to the run. -/
theorem not_calm (h : fs.any Frame.isCode = false) (message : String) :
    ¬ Activity.Calm ⟨.unwinding message, fs⟩ :=
  fun hc => hc h message rfl

/-- The code that a machine has called answers. -/
theorem answer_goes {answer : Answer} (hw : Rests c own t 0 w) (ha : answer.Apart c own)
    (hf : Lends c own next run frame) (h : Opens c own run.connection next fs ds)
    (calm : (Activity.reply (w.surroundings here.home) answer frame fs).Calm) :
    Goes c own t w w (Activity.reply (w.surroundings here.home) answer frame fs)
      (shows w here ⟨.answering (.ok answer), frame :: fs⟩) ds := by
  obtain ⟨s, hkept, hp⟩ := id hw
  obtain rfl := hp.eq_of_zero
  obtain ⟨n, rest, own', rfl, rfl⟩ | ⟨n, resource, release, rest, own', rfl, rfl⟩ |
    ⟨exit, inner, u, rfl, hu⟩ | ⟨exit, rest, own', rfl, rfl⟩ | ⟨message, hm⟩ :=
    Activity.reply_cases (w.surroundings here.home) hf.isCode answer fs
  · cases ha with
    | node hn =>
      cases hf
      exact .of_rests hw hw (.refl s) (.focus hn h) (.nil _)
  · cases ha with
    | node hn =>
      cases hf with
      | opening _ hf =>
        refine .of_rests hw hw (.refl s) (.focus hn (.inUse resource hf h)) ?_
        have hseen := seen_of hkept h.connection .entered
        exact .single (hseen ▸ .entered _ _ _)
  · cases hf with
    | node =>
      obtain rfl := Option.some.inj hu
      exact .of_rests hw hw (.refl s) (resume_stands exit h) (.nil _)
    | opening => simp [Frame.exited] at hu
  · cases hf
    exact .of_rests hw hw (.refl s) (resume_stands exit h) (.nil _)
  · rw [hm] at calm
    exact absurd calm (not_calm h.plain message)

/-- An evaluation returns. -/
theorem given_goes (hw : Rests c own t 0 w) (exit : Exit)
    (h : Opens c own run.connection [] (frame :: fs) ds) :
    Goes c own t w w (w.act here ⟨.code (.give (.ended exit run)), frame :: fs⟩).2
      (shows w here ⟨.code (.give (.ended exit run)), frame :: fs⟩) ds := by
  obtain ⟨s, hkept, hp⟩ := id hw
  obtain rfl := hp.eq_of_zero
  obtain ⟨rest, rfl⟩ := h.innermost
  have hcode : frame.isCode = false := by
    have hplain := h.plain
    simp only [List.any_cons, Bool.or_eq_false_iff] at hplain
    exact hplain.1
  have heval : isEval frame = true := by simpa using h.head
  obtain ⟨u, hu⟩ : ∃ u, frame.exited (w.surroundings here.home) exit run = some u := by
    generalize run.connection = d at h
    cases h <;> cases exit <;> exact ⟨_, rfl⟩
  have hact : (w.act here ⟨.code (.give (.ended exit run)), frame :: fs⟩).2 =
      Activity.after u fs := Activity.reply_ended hcode hu fs
  have hshows : shows w here ⟨.code (.give (.ended exit run)), frame :: fs⟩ =
      [seen w .returned run] := if_pos heval
  rw [hact, hshows, seen_of hkept h.connection]
  exact .of_rests hw hw (.refl s) (exited_stands h hu) (.single (.returned _ _ _))

theorem Called.answering {answer : Answer} (h : Called c own depth ⟨.answering (.ok answer), []⟩) :
    depth = 0 ∧ answer.Apart c own := by
  generalize hb : (⟨.answering (.ok answer), []⟩ : Activity) = b at h
  cases h with
  | code hx =>
    rcases answer with r | n | token <;> obtain rfl := Control.code.inj (Activity.mk.inj hb).1
    · cases hx with
      | give hr => exact ⟨rfl, .reply hr⟩
    · cases hx with
      | build hn => exact ⟨rfl, .node hn⟩
    · cases hx with
      | guard ht => exact ⟨rfl, .token ht⟩
  | unwinding | lent => rcases answer with r | n | token <;> cases hb
  | inside => simp [Activity.atop] at hb

/-- Nothing is seen of what called code does. -/
theorem Called.unseen (h : Called c own depth a) (hs : a.stack ≠ [] ∨ a.control.settles = false)
    (hf : (frame :: fs).any Frame.isCode = false) :
    (if (a.atop (frame :: fs)).inside then [] else shows w here (a.atop (frame :: fs))) = [] := by
  cases h with
  | @code _ x h =>
    have hx : Control.settles (.code x) = false := hs.resolve_left fun hne => hne rfl
    rw [if_neg (by simpa [Activity.inside, Activity.atop] using hf)]
    cases x with
    | perform | panic => rfl
    | _ => cases hx
  | unwinding | lent => simp [Control.settles] at hs
  | inside ha hframe => exact if_pos (by simp [Activity.inside, Activity.atop, hframe.isCode])

theorem Stands.act (hw : Rests c own t depth w) (h0 : c ≠ .uncancelable)
    (h : Stands c own depth a ds) (hs : a.stack ≠ [] ∨ a.control.settles = false)
    (hacts : a.Acts w here) (calm : (w.act here a).2.Calm) :
    Goes c own t w (w.act here a).1 (w.act here a).2
      (if a.inside then [] else shows w here a) ds := by
  obtain ⟨s, hkept, hp⟩ := id hw
  cases h with
  | @focus n next run fs _ hn h =>
    have hcurrent : w.isCurrent here.home run.context = true := hacts
    obtain rfl := hp.eq_of_zero
    rw [if_neg (by simp [Activity.inside, h.plain])]
    simp only [World.act, shows, hcurrent, if_true]
    exact .machine hw (step_leads hkept h0 hn h)
  | @unwind exit next run fs _ h =>
    have hcurrent : w.isCurrent here.home run.context = true := hacts
    rw [if_neg (by simp [Activity.inside, h.plain])]
    simp only [World.act, shows, hcurrent, if_true]
    exact .machine hw (resume_leads exit h)
  | @called _ a frame next run fs _ ha hf h =>
    have hplain : (frame :: fs).any Frame.isCode = false := by
      simp [hf.isCode, h.plain]
    obtain ⟨res, rfl⟩ | ⟨r, rfl⟩ | hs := a.settled_or
    · rcases res with message | answer
      · have hact : (w.act here ((⟨.answering (.error message), []⟩ : Activity).atop
            (frame :: fs))).2 = ⟨.unwinding message, fs⟩ := by
          cases hf <;> rfl
        rw [hact] at calm
        exact absurd calm (not_calm h.plain message)
      · obtain ⟨rfl, hanswer⟩ := Called.answering ha
        have hact : w.act here ((⟨.answering (.ok answer), []⟩ : Activity).atop (frame :: fs)) =
            (w, Activity.reply (w.surroundings here.home) answer frame fs) := by
          rcases answer with r | n | token <;> rfl
        rw [hact] at calm ⊢
        rw [if_neg (by simpa [Activity.inside, Activity.atop] using hplain)]
        exact answer_goes hw hanswer hf h calm
    · exact hacts.elim
    · obtain ⟨depth', t', hw', ht, ha'⟩ := called_act hw h0 ha hs hacts
      rw [Called.unseen ha hs hplain, World.act_atop _ _ _ _ hs]
      exact .of_rests hw hw' ht (.called ha' hf h) (.nil _)
  | @given exit run fs _ h =>
    cases fs with
    | nil => simp [Control.settles] at hs
    | cons frame fs =>
      rw [if_neg (by simp [Activity.inside, h.plain])]
      exact given_goes hw exit h
  | ended => exact hacts.elim

end Runs

end Effects.Evaluation
