import Effects.Proofs.Custody.Ledger

/-!
What becomes of the tokens of a connection, whatever the threads of its world do in whatever order.
-/

namespace Effects.Custody

variable {c : ConnectionId} {v w : World} {i : ThreadId} {thread : Thread} {l l' : Ledger}
  {s : Connection Code} {t : Nat} {ts : List Nat} {token : Code} {tokens : List Code}

namespace Ledger

/-- The connection as it is, and with the numbers of its tokens. -/
inductive Keeps (l : Ledger) : Connection Nat → Connection Code → Prop
  | active {ts : List Nat} {tokens : List Code} (h : l.Reads ts tokens) :
      Keeps l (.active ts) (.active tokens)
  | canceled : Keeps l .canceled .canceled

/-- The thread that has taken these tokens out has the rest of them yet to run. -/
def Owed (l : Ledger) (v : World) (b : Batch) : Prop :=
  ∃ thread tokens, v.threads[b.thread]? = some thread ∧ l.Reads b.due tokens ∧
    thread.activity.Owes b.depth tokens

/-- The ledger tells of the connection in this world. -/
structure Agrees (c : ConnectionId) (v : World) (l : Ledger) : Prop where
  connection : ∃ s, v.connections[c]? = some s ∧ l.Keeps l.kept s
  owed : ∀ b ∈ l.batches, b.due ≠ [] → l.Owed v b
  apart : l.batches.Pairwise fun b b' => b.due ≠ [] → b'.due ≠ [] → b.thread = b'.thread →
    b.depth ≠ b'.depth

theorem Reads.cons (ht : l.tokens[t]? = some token) (h : l.Reads ts tokens) :
    l.Reads (t :: ts) (token :: tokens) := by
  rw [Reads, List.map_cons, List.map_cons, ht, h]

theorem Reads.of_cons (h : l.Reads (t :: ts) tokens) :
    ∃ token rest, tokens = token :: rest ∧ l.tokens[t]? = some token ∧ l.Reads ts rest := by
  cases tokens with
  | nil => cases h
  | cons token rest =>
    obtain ⟨ht, hts⟩ := List.cons.inj h
    exact ⟨token, rest, rfl, ht, hts⟩

theorem Reads.eq_nil (h : l.Reads [] tokens) : tokens = [] := by
  cases tokens with
  | nil => rfl
  | cons => cases h

theorem Reads.take_drop (h : l.Reads ts tokens) : l.Reads (ts.drop 1) (tokens.drop 1) := by
  rw [Reads, List.map_drop, List.map_drop, h]

theorem Reads.more (h : l.Reads ts tokens) {more : List Code}
    (hl : l'.tokens = l.tokens ++ more) : l'.Reads ts tokens := by
  have hsame : ∀ t ∈ ts, l'.tokens[t]? = l.tokens[t]? := by
    intro t ht
    have hmem : l.tokens[t]? ∈ tokens.map some := h ▸ List.mem_map_of_mem ht
    obtain ⟨token, -, htoken⟩ := List.mem_map.1 hmem
    rw [hl, ← htoken]
    exact List.getElem?_append_left (List.getElem?_eq_some_iff.1 htoken.symm).1 |>.trans htoken.symm
  rw [Reads, ← h]
  exact List.map_congr_left hsame

theorem Keeps.more {kept : Connection Nat} (h : l.Keeps kept s) {more : List Code}
    (hl : l'.tokens = l.tokens ++ more) : l'.Keeps kept s := by
  cases h with
  | active h => exact .active (h.more hl)
  | canceled => exact .canceled

theorem Owed.more {b : Batch} (h : l.Owed v b) {more : List Code}
    (hl : l'.tokens = l.tokens ++ more) : l'.Owed v b := by
  obtain ⟨thread, tokens, hthread, hreads, howes⟩ := h
  exact ⟨thread, tokens, hthread, hreads.more hl, howes⟩

theorem start_agrees (h : w.connections[c]? = some (.active tokens)) :
    (start tokens).Agrees c w where
  connection := by
    refine ⟨_, h, .active ?_⟩
    have hall : (List.range tokens.length).map (tokens.reverse[·]?) = tokens.reverse.map some := by
      refine List.ext_getElem (by simp) fun n hn hn' => ?_
      simp at hn
      simp [hn]
    rw [Reads, start, List.map_reverse, hall, ← List.map_reverse, List.reverse_reverse]
  owed := fun _ h => absurd h List.not_mem_nil
  apart := .nil

/-- What is due stays due, until the thread goes on to the next of it. -/
theorem Owed.step {b : Batch} (h : l.Owed v b) (hdue : b.due ≠ []) (i : ThreadId) :
    l.Owed (v.step i) b ∨ b.thread = i ∧ ∃ thread t ts token rest, v.threads[i]? = some thread ∧
      b.due = t :: ts ∧ l.tokens[t]? = some token ∧ l.Reads ts rest ∧
      thread.activity.Passes b.depth token rest := by
  obtain ⟨thread, tokens, hthread, hreads, howes⟩ := h
  by_cases hi : b.thread = i
  · subst hi
    obtain ⟨t, ts, hts⟩ := List.exists_cons_of_ne_nil hdue
    rw [hts] at hreads
    obtain ⟨token, rest, rfl, ht, hrest⟩ := hreads.of_cons
    obtain hact | hpasses := howes.act v thread.place
    · exact .inl ⟨_, token :: rest, World.step_self hthread howes.1, hts ▸ hreads, hact⟩
    · exact .inr ⟨rfl, thread, t, ts, token, rest, hthread, hts, ht, hrest, hpasses⟩
  · exact .inl ⟨thread, tokens, World.step_other hthread (Ne.symm hi), hreads, howes⟩

/-- A call on the connection, but that nothing is said yet of the tokens that it takes out. -/
theorem Keeps.heard (hf : l.Fates) (h : l.Keeps l.kept s) (i : ThreadId) (depth : Nat)
    (op : ConnectionOp Code) :
    ∃ l' more, Replays l (heard s i depth op) l' ∧ l'.Keeps l'.kept (op.after s) ∧
      l'.tokens = l.tokens ++ more ∧ (l'.batches = l.batches ∨ op = .cancel ∧
        ∃ ts, l'.batches = l.batches ++ [⟨i, depth, ts.take 1, ts.drop 1⟩] ∧
          l'.Reads ts s.tokens) := by
  obtain ⟨numbered, kept, popped, late, batches⟩ := l
  have same : ∃ more, numbered = numbered ++ more := ⟨[], (List.append_nil numbered).symm⟩
  obtain ⟨none, hnone⟩ := same
  cases h with
  | @active ts tokens hreads =>
    cases op with
    | push token =>
      refine ⟨_, [token], .single (.pushed token rfl), .active ?_, rfl, .inl rfl⟩
      exact .cons List.getElem?_concat_length (hreads.more rfl)
    | pop | popAndRun =>
      cases ts with
      | nil =>
        obtain rfl := hreads.eq_nil
        exact ⟨_, none, .single (.nothing rfl), .active hreads, hnone, .inl rfl⟩
      | cons t ts =>
        obtain ⟨token, rest, rfl, ht, hrest⟩ := hreads.of_cons
        have hts : ∀ t' ∈ ts, t' < t := (List.pairwise_cons.1 hf.recent).1
        exact ⟨_, none, .single (.popped rfl ht hts), .active hrest, hnone, .inl rfl⟩
    | cancel =>
      refine ⟨_, none, .single (.swapped i depth rfl hreads), .canceled, hnone, .inr ⟨rfl, ts, ?_⟩⟩
      exact ⟨rfl, hreads⟩
    | reactivate =>
      exact ⟨_, none, .single (.stays nofun), .active hreads, hnone, .inl rfl⟩
    | isCanceled => exact ⟨_, none, .single (.asked rfl), .active hreads, hnone, .inl rfl⟩
    | isUncancelable | describe => exact ⟨_, none, .nil _, .active hreads, hnone, .inl rfl⟩
  | canceled =>
    cases op with
    | push token => exact ⟨_, [token], .single (.late token rfl), .canceled, rfl, .inl rfl⟩
    | pop | popAndRun => exact ⟨_, none, .single (.nothing rfl), .canceled, hnone, .inl rfl⟩
    | cancel => exact ⟨_, none, .single (.again i depth rfl), .canceled, hnone, .inl rfl⟩
    | reactivate => exact ⟨_, none, .single (.reactivated rfl), .active rfl, hnone, .inl rfl⟩
    | isCanceled => exact ⟨_, none, .single (.asked rfl), .canceled, hnone, .inl rfl⟩
    | isUncancelable | describe => exact ⟨_, none, .nil _, .canceled, hnone, .inl rfl⟩

theorem act_cancel (hs : v.connections[c]? = some s) (here : Place) (next : Reply → Code)
    (stack : List Frame) :
    (v.act here ⟨.code (.perform (.connection c .cancel) next), stack⟩).2 =
      Activity.runTokens s.tokens none next stack := by
  simp only [World.act, World.perform, World.onConnection, hs, Option.getD_some,
    Connection.cancel_snd]
  rfl

theorem connection_step (hs : v.connections[c]? = some s) (hi : v.threads[i]? = some thread)
    (hop : ∀ op, thread.activity.op? ≠ some (.connection c op)) :
    (v.step i).connections[c]? = some s := by
  generalize hu : v.step i = u
  cases World.steps_of_step hu with
  | stays | retires => exact hs
  | skips _ htakes | begins _ htakes => exact htakes.kept.2 ▸ hs
  | acts hi' =>
    obtain rfl := Option.some.inj (hi.symm.trans hi')
    exact World.act_connection hs thread.place fun op hop' op' h => hop op' (h ▸ hop')

theorem Agrees.owed_step (h : l.Agrees c v) (hi : v.threads[i]? = some thread) {b : Batch}
    (hb : b ∈ l.batches) (hdue : b.due ≠ [])
    (hp : b.thread = i → ∀ token rest, ¬ thread.activity.Passes b.depth token rest) :
    l.Owed (v.step i) b := by
  refine ((h.owed b hb hdue).step hdue i).resolve_right ?_
  rintro ⟨hthread, thread', t, ts, token, rest, hi', -, -, -, hp'⟩
  obtain rfl := Option.some.inj (hi.symm.trans hi')
  exact hp hthread token rest hp'

theorem Agrees.of_next (h : l.Agrees c v) (hi : v.threads[i]? = some thread) {depth : Nat}
    {rest : List Code} (hp : thread.activity.Passes depth token rest) {before after : List Batch}
    {ran : List Nat} (hb : l.batches = before ++ ⟨i, depth, ran, t :: ts⟩ :: after) :
    ∃ l', Follows l (.next i depth token) l' ∧ l'.Agrees c (v.step i) := by
  let b : Batch := ⟨i, depth, ran, t :: ts⟩
  have hmem : b ∈ l.batches := by simp [hb, b]
  obtain ⟨thread', tokens, hi', hreads, howes⟩ := h.owed b hmem (List.cons_ne_nil t ts)
  obtain rfl := Option.some.inj (hi.symm.trans hi')
  -- there is one frame at this depth, so what the thread goes on to is the first that is due
  obtain rfl := howes.eq hp.owes
  obtain ⟨token', rest', heq, ht, hrest⟩ := hreads.of_cons
  obtain ⟨rfl, rfl⟩ := List.cons.inj heq
  obtain ⟨s, hs, hk⟩ := h.connection
  have hapart := h.apart
  rw [hb, List.pairwise_middle fun hne hdue' hdue hj hd => hne hdue hdue' hj.symm hd.symm] at hapart
  obtain ⟨hothers, hrest'⟩ := List.pairwise_cons.1 hapart
  refine ⟨_, .next hb ht, ⟨s, connection_step hs hi hp.op?_ne, hk.more (List.append_nil _).symm⟩,
    fun b' hb' hdue => ?_, ?_⟩
  · refine Owed.more (l := l) ?_ (List.append_nil _).symm
    obtain rfl | hb' := List.mem_cons.1 (List.perm_middle.mem_iff.1 hb')
    · obtain ⟨failure, next, below, hdepth, hact⟩ := hp.act v thread.place
      refine ⟨_, rest, World.step_self hi hp.1, hrest, ?_⟩
      rw [hact]
      exact ⟨fun _ h => (by cases h), [], failure, next, below, rfl, hdepth⟩
    · have hbatches : b' ∈ l.batches := by
        rw [hb]
        exact List.perm_middle.mem_iff.2 (List.mem_cons_of_mem _ hb')
      refine h.owed_step hi hbatches hdue fun hthread token' rest' hp' => ?_
      exact hothers b' hb' (List.cons_ne_nil t ts) hdue hthread.symm (hp.depth_eq hp')
  · rw [List.pairwise_middle fun hne hdue' hdue hj hd => hne hdue hdue' hj.symm hd.symm]
    exact List.pairwise_cons.2 ⟨fun b' hb' _ => hothers b' hb' (List.cons_ne_nil t ts), hrest'⟩

theorem Agrees.of_passes (h : l.Agrees c v) (hi : v.threads[i]? = some thread) {depth : Nat}
    {rest : List Code} (hp : thread.activity.Passes depth token rest) :
    ∃ l', Replays l (v.signs c i) l' ∧ l'.Agrees c (v.step i) := by
  have hsigns : v.signs c i = [.next i depth token] := by
    rw [World.signs, hi]
    exact signs_passes hp
  rw [hsigns]
  by_cases hown : ∃ b ∈ l.batches, b.thread = i ∧ b.depth = depth ∧ b.due ≠ []
  · obtain ⟨⟨j, depth', ran, due⟩, hb, rfl, rfl, hdue⟩ := hown
    obtain ⟨before, after, hbatches⟩ := List.append_of_mem hb
    obtain ⟨t, ts, rfl⟩ := List.exists_cons_of_ne_nil hdue
    obtain ⟨l', hl, ha⟩ := h.of_next hi hp hbatches
    exact ⟨l', .single hl, ha⟩
  · have hother : ∀ b ∈ l.batches, b.thread = i → b.depth = depth → b.due = [] :=
      fun b hb hthread hd => not_not.1 fun hdue => hown ⟨b, hb, hthread, hd, hdue⟩
    obtain ⟨s, hs, hk⟩ := h.connection
    refine ⟨l, .single (.other token hother), ⟨s, connection_step hs hi hp.op?_ne, hk⟩,
      fun b hb hdue => ?_, h.apart⟩
    refine h.owed_step hi hb hdue fun hthread token' rest' hp' => ?_
    exact hdue (hother b hb hthread (hp'.depth_eq hp))

theorem Agrees.of_call (h : l.Agrees c v) (hf : l.Fates) (hi : v.threads[i]? = some thread)
    {op : ConnectionOp Code} (hop : thread.activity.op? = some (.connection c op)) :
    ∃ l', Replays l (v.signs c i) l' ∧ l'.Agrees c (v.step i) := by
  obtain ⟨name, home, role, control, stack⟩ := thread
  obtain ⟨next, rfl⟩ := Activity.op?_eq_some hop
  have hended : ∀ r, Control.code (.perform (.connection c op) next) ≠ .ended r :=
    fun _ h => by cases h
  obtain ⟨s, hs, hk⟩ := h.connection
  have hsigns : v.signs c i = heard s i stack.length op := by
    rw [World.signs, hi, Option.elim_some, signs_call rfl, World.connection, hs, Option.getD_some]
  have hafter : (v.step i).connections[c]? = some (op.after s) := by
    rw [World.step_act hi hended]
    exact World.onConnection_self hs op
  have howed : ∀ b ∈ l.batches, b.due ≠ [] → l.Owed (v.step i) b := fun b hb hdue =>
    h.owed_step hi hb hdue fun _ _ _ hp => by cases hp.2.1
  obtain ⟨l', more, hreplays, hk', hmore, hbatches⟩ := hk.heard hf i stack.length op
  rw [hsigns]
  obtain hbatches | ⟨rfl, ts, hbatches, hreads⟩ := hbatches
  · refine ⟨l', hreplays, ⟨_, hafter, hk'⟩, fun b hb hdue => ?_, hbatches ▸ h.apart⟩
    exact (howed b (hbatches ▸ hb) hdue).more hmore
  · refine ⟨l', hreplays, ⟨_, hafter, hk'⟩, fun b hb hdue => ?_, ?_⟩
    · obtain hb | hb := List.mem_append.1 (hbatches ▸ hb)
      · exact (howed b hb hdue).more hmore
      · obtain rfl := List.mem_singleton.1 hb
        refine ⟨_, s.tokens.drop 1, World.step_self hi hended, hreads.take_drop, ?_⟩
        rw [act_cancel hs]
        cases htokens : s.tokens with
        | nil =>
          rw [htokens] at hreads
          exact absurd (by rw [List.map_eq_nil_iff.1 hreads]; rfl) hdue
        | cons token tokens => exact ⟨fun _ h => (by cases h), [], none, next, stack, rfl, rfl⟩
    · rw [hbatches]
      refine List.pairwise_append.2 ⟨h.apart, List.pairwise_singleton _ _, fun b hb b' hb' => ?_⟩
      obtain rfl := List.mem_singleton.1 hb'
      intro hdue _ hthread hdepth
      -- the other batches of the thread are those of frames further down
      obtain ⟨thread', tokens, hi', -, howes⟩ := h.owed b hb hdue
      rw [hthread] at hi'
      obtain rfl := Option.some.inj (hi.symm.trans hi')
      exact absurd howes.lt_length (by simp [hdepth])

theorem Agrees.step (h : l.Agrees c v) (hf : l.Fates) (i : ThreadId) :
    ∃ l', Replays l (v.signs c i) l' ∧ l'.Agrees c (v.step i) := by
  cases hi : v.threads[i]? with
  | none =>
    have hsigns : v.signs c i = [] := by rw [World.signs, hi, Option.elim_none]
    have hstep : v.step i = v := by simp [World.step, hi]
    exact ⟨l, hsigns ▸ .nil l, hstep.symm ▸ h⟩
  | some thread =>
    -- a step hands an answer down to tokens, or it is a call, or the connection is not seen
    by_cases hp : ∃ depth token rest, thread.activity.Passes depth token rest
    · obtain ⟨depth, token, rest, hp⟩ := hp
      exact h.of_passes hi hp
    by_cases hop : ∃ op, thread.activity.op? = some (.connection c op)
    · obtain ⟨op, hop⟩ := hop
      exact h.of_call hf hi hop
    have hp : ∀ depth token rest, ¬ thread.activity.Passes depth token rest :=
      fun depth token rest h => hp ⟨depth, token, rest, h⟩
    have hop : ∀ op, thread.activity.op? ≠ some (.connection c op) := fun op h => hop ⟨op, h⟩
    have hsigns : v.signs c i = [] := by
      rw [World.signs, hi, Option.elim_some, signs_eq_nil hop hp]
    obtain ⟨s, hs, hk⟩ := h.connection
    refine ⟨l, hsigns ▸ .nil l, ⟨s, connection_step hs hi hop, hk⟩, fun b hb hdue => ?_, h.apart⟩
    exact h.owed_step hi hb hdue fun _ => hp b.depth

end Ledger

/-- A token that is seen to begin is what the thread runs from then on. -/
theorem step_begun (hs : v.connections[c]? = some s) {sign : Sign} (h : sign ∈ v.signs c i)
    (hb : sign.begun = some token) : (v.step i).Runs i token := by
  cases hi : v.threads[i]? with
  | none =>
    rw [World.signs, hi] at h
    cases h
  | some thread =>
    rw [World.signs, hi, Option.elim_some] at h
    by_cases hp : ∃ depth token rest, thread.activity.Passes depth token rest
    · obtain ⟨depth, token', rest, hp⟩ := hp
      rw [signs_passes hp, List.mem_singleton] at h
      obtain rfl := h
      obtain rfl := Option.some.inj hb
      obtain ⟨failure, next, below, -, hact⟩ := hp.act v thread.place
      exact ⟨_, World.step_self hi hp.1, by rw [hact]⟩
    by_cases hop : ∃ op, thread.activity.op? = some (.connection c op)
    · obtain ⟨op, hop⟩ := hop
      rw [signs_call hop, World.connection, hs, Option.getD_some] at h
      obtain ⟨name, home, role, control, stack⟩ := thread
      obtain ⟨next, rfl⟩ := Activity.op?_eq_some hop
      refine ⟨_, World.step_self hi (fun _ h => by cases h), ?_⟩
      cases op with
      | push token' =>
        cases s with
        | canceled =>
          obtain rfl := List.mem_singleton.1 h
          obtain rfl := Option.some.inj hb
          simp only [World.act, World.perform, World.onConnection, hs, Option.getD_some,
            Connection.push]
          rfl
        | _ =>
          obtain rfl := List.mem_singleton.1 h
          cases hb
      | cancel =>
        obtain rfl := List.mem_singleton.1 h
        rw [Sign.begun, Connection.cancel_snd] at hb
        obtain ⟨tokens, htokens⟩ := List.head?_eq_some_iff.1 hb
        simp only [Ledger.act_cancel hs, htokens]
        rfl
      | pop | popAndRun | reactivate | isCanceled =>
        obtain rfl := List.mem_singleton.1 h
        cases hb
      | isUncancelable | describe => cases h
    · have hsigns := signs_eq_nil (c := c) (w := v) (i := i) (fun op h => hop ⟨op, h⟩)
        fun depth token rest h => hp ⟨depth, token, rest, h⟩
      rw [hsigns] at h
      cases h

/-- The threads of a world push tokens onto a connection that is active at first, pop them, cancel
and reactivate it in whatever order. Each token is still there, or has been returned by one pop, or
has been run by its own push, which came too late, or is one of those that a cancel has taken out,
which the thread that cancels runs one after another, the later ones first. -/
theorem tokens_meet_one_fate {seen : List Sign} (h : w.connections[c]? = some (.active tokens))
    (hr : Runs c w seen v) :
    ∃ l, Ledger.Replays (.start tokens) seen l ∧ l.Fates ∧ l.Agrees c v ∧
      l.tokens = tokens.reverse ++ seen.filterMap Sign.brought ∧
      ∀ i, ∀ sign ∈ v.signs c i, ∀ token, sign.begun = some token → (v.step i).Runs i token := by
  obtain ⟨l, hl, ha⟩ : ∃ l, Ledger.Replays (.start tokens) seen l ∧ l.Agrees c v := by
    -- the run is followed step by step; that each token has one fate is what a cancel relies on
    induction hr with
    | start => exact ⟨_, .nil _, Ledger.start_agrees h⟩
    | step _ i ih =>
      obtain ⟨l, hl, ha⟩ := ih
      obtain ⟨l', hl', ha'⟩ := ha.step ((Ledger.start_fates tokens).replays hl) i
      exact ⟨l', hl.append hl', ha'⟩
    | passing _ nanos ih =>
      obtain ⟨l, hl, ha⟩ := ih
      exact ⟨l, hl, ha.connection, ha.owed, ha.apart⟩
  obtain ⟨s, hs, -⟩ := ha.connection
  exact ⟨l, hl, (Ledger.start_fates tokens).replays hl, ha, hl.tokens,
    fun i sign h token hb => step_begun hs h hb⟩

/-- A token is popped, and pushed again it comes too late for a cancel, which runs the two that were
there before. -/
theorem tokens_meet_one_fate_of_rivals :
    let a : Code := .panic "a"
    let b : Code := .give .unit
    let c : Code := .give (.flag true)
    let call (op : ConnectionOp Code) (x : Code) : Code := .perform (.connection 1 op) fun _ => x
    let late := call (.push c) (.give .unit)
    let canceler := call .cancel (.give .unit)
    let is (s : Connection Code) (p q : Activity) : World := { World.start with
      connections := #[.uncancelable, s]
      threads := #[⟨"pusher", none, .task, p⟩, ⟨"canceler", none, .task, q⟩] }
    let w := is (.active [b, a]) (.start (call (.push c) (call .pop late))) (.start canceler)
    let seen : List Sign := [.pushed c, .popped (some c), .swapped 1 0 [b, a], .late c, .next 1 0 a]
    ∃ v, Runs 1 w seen v ∧ w.connections[1]? = some (.active [b, a]) ∧
      ∃ l, Ledger.Replays (.start [b, a]) seen l ∧ l.Fates ∧ l.Agrees 1 v ∧
        l.tokens = [a, b] ++ seen.filterMap Sign.brought ∧
        ∀ i, ∀ sign ∈ v.signs 1 i, ∀ token, sign.begun = some token → (v.step i).Runs i token := by
  intro a b c call late canceler is w seen
  have steps : ∀ {ps : List Sign} {t : World} (i : ThreadId) (more : List Sign) (u : World),
      Runs 1 w ps t → t.signs 1 i = more → t.step i = u → Runs 1 w (ps ++ more) u := by
    rintro ps t i _ _ h rfl rfl
    exact .step h i
  let running (x : Code) (rest : List Code) : Activity :=
    ⟨.code x, [.tokens rest none fun _ => .give .unit]⟩
  let inPlace : Activity := ⟨.code c, [.call fun _ => .give .unit]⟩
  have pushed := steps 0 [.pushed c] (is (.active [c, b, a]) (.start (call .pop late))
    (.start canceler)) .start rfl rfl
  have popped := steps 0 [.popped (some c)] (is (.active [b, a]) (.start late)
    (.start canceler)) pushed rfl rfl
  have swapped := steps 1 [.swapped 1 0 [b, a]] (is .canceled (.start late)
    (running b [a])) popped rfl rfl
  have pushedLate := steps 0 [.late c] (is .canceled inPlace (running b [a])) swapped rfl rfl
  have next := steps 1 [.next 1 0 a] (is .canceled inPlace (running a [])) pushedLate rfl rfl
  exact ⟨_, next, rfl, tokens_meet_one_fate rfl next⟩

end Effects.Custody
