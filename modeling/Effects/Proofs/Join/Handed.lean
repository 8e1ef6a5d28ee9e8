import Mathlib.Data.List.Permutation
import Effects.Proofs.Join.Runs

/-!
What comes of a fiber that is joined once, in whatever order all threads take their steps: its exit
goes to the joiner, or the joiner leaves and the exit is kept; and nobody who waits for the end of the
fiber goes on before its computation has ended.
-/

namespace Effects.Joining

open Service

variable {f : FiberId} {node : Node} {run : Run} {s : Scene} {fl : FiberFloor}

/-- Whom the exit has been handed to. -/
def handed (s : Scene) : List (LatchId × Delivery) := (notes s.desk.seen).flatMap Note.hands

/-- The computation has ended so, and its thread has come to complete the fiber. -/
def Scene.Ended (s : Scene) (exit : Delivery) : Prop := s.job = .ended exit

structure Handed (f : FiberId) (node : Node) (run : Run) (s : Scene) : Prop where
  working : ∀ {g}, s.job = .working g → Working f node run g.activity
  completed : ∀ {exit joiner}, .completed exit joiner ∈ notes s.desk.seen → s.Ended exit
  handed_once : (handed s).length ≤ 1
  handed_exit : ∀ {l exit}, (l, exit) ∈ handed s → s.Ended exit
  told_once : ((tolds s.desk.seen).map (·.1)).Nodup
  /-- The exit is delivered, or the joiner's own token has interrupted it. -/
  told : ∀ {l x}, .told l x ∈ s.desk.seen →
    (∃ exit, s.Ended exit ∧ (l, exit) ∈ handed s ∧ x = told exit ∧
      .left l ∉ notes s.desk.seen) ∨
    (x = interrupted ∧ .left l ∈ notes s.desk.seen ∧
      .pushed ((procedure f).token (.detach l)) ∈ s.desk.seen ∧ handed s = [])
  told_all : (∀ q ∈ s.desk.parties, q.Rests) → (∃ exit, s.Ended exit) →
    ∀ {i l}, .opened i l ∈ s.desk.seen → ∃ x, .told l x ∈ s.desk.seen
  ends : ∀ {i : Nat} {q : Party Visit} {exit}, s.desk.parties[i]? = some q → q.call = some .join →
    q.Ends exit → (exit = .canceled ∧ ∀ l, .opened i l ∉ s.desk.seen) ∨
      ∃ l, .opened i l ∈ s.desk.seen ∧
        ((s.Ended (.ok exit) ∧ (l, .ok exit) ∈ handed s) ∨
          (exit = .canceled ∧ .left l ∈ notes s.desk.seen))
  panics : ∀ {i : Nat} {q : Party Visit} {message}, s.desk.parties[i]? = some q →
    q.call = some .join → q.activity = ⟨.unwinding message, []⟩ →
      ∃ l, .opened i l ∈ s.desk.seen ∧ s.Ended (.error message) ∧ (l, .error message) ∈ handed s
  /-- Whoever joins, or takes the joiner out, cancels nothing. -/
  spares : ∀ {q op}, q ∈ s.desk.parties → q.activity.op? = some op →
    ∀ c, op ≠ .connection c .cancel
  /-- The exit that nobody waits for any more stays in the slot. -/
  kept : ∀ {l exit joiner}, .left l ∈ notes s.desk.seen →
    .completed exit joiner ∈ notes s.desk.seen → joiner = none ∧
      ∃ state, s.desk.world.fibers[f]? = some state ∧ state.slot = .finished (some exit)
  gate : ∃ state, s.desk.world.fibers[f]? = some state ∧
    (state.gate = .opened ↔ .opened ∈ notes s.desk.seen)
  opens : ∀ {before rest}, s.desk.seen = before ++ .noted .opened :: rest →
    ∃ exit, s.Ended exit ∧ Recorded before exit
  /-- Whoever has canceled the fiber goes on when it has ended. -/
  returns : ∀ {i : Nat} {q : Party Visit} {n}, s.desk.parties[i]? = some q →
    q.call = some .await → q.Gives n → .opened ∈ notes s.desk.seen ∧ ∃ exit, s.Ended exit
  cancelers : ∀ {g}, g ∈ s.cancelers → ∀ n, g.activity ≠ ⟨.code (.build n), []⟩

section Stages

variable {h : History} {st : Stage} {l : LatchId} {exit : Delivery}

theorem Course.left_iff (hc : Course h st) : .left l ∈ h ↔ l ∈ st.leaves := by
  rw [← hc.leaves_eq, List.mem_flatMap]
  constructor
  · intro hl
    exact ⟨_, hl, List.mem_singleton_self l⟩
  · rintro ⟨n, hn, hl⟩
    cases n with
    | left l' =>
      obtain rfl := List.mem_singleton.1 hl
      exact hn
    | _ => cases hl

theorem Course.completed_iff (hc : Course h st) :
    (∃ joiner, .completed exit joiner ∈ h) ↔ exit ∈ st.exits := by
  rw [← hc.exits_eq, List.mem_flatMap]
  constructor
  · rintro ⟨joiner, hn⟩
    exact ⟨_, hn, List.mem_singleton_self exit⟩
  · rintro ⟨n, hn, he⟩
    cases n with
    | completed exit' joiner =>
      obtain rfl := List.mem_singleton.1 he
      exact ⟨joiner, hn⟩
    | _ => cases he

/-- Who has got the exit has not left. -/
theorem Stage.hands_cases (st : Stage) : st.hands = [] ∨ ∃ l exit,
    st.hands = [(l, exit)] ∧ st.exits = [exit] ∧ st.leaves = [] := by
  cases st with
  | handed l exit | heard l exit => exact .inr ⟨l, exit, rfl, rfl, rfl⟩
  | _ => exact .inl rfl

/-- Once the fiber has completed, there is a call due for its joiner. -/
theorem Stage.exists_due (hl : l ∈ st.callbacks) (he : exit ∈ st.exits) :
    ∃ x, (l, x) ∈ st.dues := by
  cases st with
  | running | joined | left => cases he
  | kept gone exit' =>
    exact ⟨interrupted, by simpa [Stage.dues, Stage.leaves, Stage.hands, Stage.callbacks] using hl⟩
  | handed l' exit' | heard l' exit' =>
    obtain rfl := List.mem_singleton.1 hl
    exact ⟨told exit', List.mem_singleton_self _⟩

theorem Stage.slot_of_left (hl : l ∈ st.leaves) (he : exit ∈ st.exits) :
    st.slot = .finished (some exit) ∧ st.hands = [] := by
  cases st with
  | kept gone exit' =>
    obtain rfl := List.mem_singleton.1 he
    exact ⟨rfl, rfl⟩
  | running | joined | left => cases he
  | handed | heard => cases hl

end Stages

theorem told_eq_ok {exit : Delivery} {reply : Reply} (h : .ok reply = told exit) :
    exit = .ok reply.toExit := by
  cases exit with
  | ok exit =>
    obtain rfl := Except.ok.inj h
    rfl
  | error message => cases h

theorem told_eq_error {exit : Delivery} {message : String} (h : .error message = told exit) :
    exit = .error message := by
  cases exit with
  | ok exit => cases h
  | error message' =>
    obtain rfl := Except.error.inj h
    rfl

section Scenes

variable (hS : Stands f node run fl s)

include hS

theorem exists_course : ∃ st, Course (notes s.desk.seen) st ∧ fl.state.slot = st.slot := by
  rw [hS.desk.seen]
  exact hS.holds.inv.legal.course

theorem ended_of_issued {exit : Delivery} (he : .complete exit ∈ issued s.desk.parties) :
    s.Ended exit := by
  have hvisit : Visit.complete exit ∈ visits s.desk.parties := (List.mem_filter.1 he).1
  have hexit : exit ∈ exits s.desk.parties := List.mem_filterMap.2 ⟨_, hvisit, rfl⟩
  rw [hS.exits, Option.mem_toList] at hexit
  cases hjob : s.job with
  | working g => simp [hjob, Job.exit?] at hexit
  | ended exit' =>
    rw [hjob] at hexit
    obtain rfl := Option.some.inj hexit
    exact hjob

theorem ended_of_completed {exit : Delivery} {joiner : Option LatchId}
    (hn : .completed exit joiner ∈ notes s.desk.seen) : s.Ended exit := by
  refine ended_of_issued hS (hS.holds.issued.mem_iff.1 (List.mem_append_left _ ?_))
  rw [← hS.desk.seen]
  exact List.mem_flatMap.2 ⟨_, hn, List.mem_singleton_self _⟩

theorem ended_of_handed {l : LatchId} {exit : Delivery} (hm : (l, exit) ∈ Joining.handed s) :
    s.Ended exit ∧ .left l ∉ notes s.desk.seen := by
  obtain ⟨st, hc, -⟩ := exists_course hS
  rw [Joining.handed, hc.hands_eq] at hm
  obtain hnone | ⟨l', exit', hhands, hexits, hleaves⟩ := st.hands_cases
  · rw [hnone] at hm
    cases hm
  · rw [hhands] at hm
    obtain ⟨rfl, rfl⟩ := Prod.mk.inj (List.mem_singleton.1 hm)
    obtain ⟨joiner, hn⟩ := hc.completed_iff.2 (hexits ▸ List.mem_singleton_self exit)
    refine ⟨ended_of_completed hS hn, fun hl => ?_⟩
    rw [hc.left_iff, hleaves] at hl
    cases hl

theorem left_handed {l : LatchId} (hl : .left l ∈ notes s.desk.seen) : Joining.handed s = [] := by
  obtain ⟨st, hc, -⟩ := exists_course hS
  rw [Joining.handed, hc.hands_eq]
  obtain hnone | ⟨l', exit', -, -, hleaves⟩ := st.hands_cases
  · exact hnone
  · rw [hc.left_iff, hleaves] at hl
    cases hl

theorem left_pushed {l : LatchId} (hl : .left l ∈ notes s.desk.seen) :
    .pushed ((procedure f).token (.detach l)) ∈ s.desk.seen := by
  obtain ⟨st, hc, -⟩ := exists_course hS
  have hn := hl
  rw [hS.desk.seen] at hn
  obtain ⟨d, hd, -, l', rfl⟩ := hS.holds.taken _ hn ⟨.detach l, ⟨l, rfl⟩, l, rfl⟩
  obtain ⟨-, hk, hp⟩ := hS.holds.inv.given _ hd
  have hk : l' ∈ (notes fl.seen).flatMap Note.callbacks := hk
  rw [← hS.desk.seen, hc.callbacks_eq] at hk
  rw [hc.left_iff] at hl
  obtain rfl : l' = l := by
    cases st with
    | left l'' => exact (List.mem_singleton.1 hk).trans (List.mem_singleton.1 hl).symm
    | kept gone exit =>
      have hk : gone = some l' := Option.mem_toList.1 hk
      exact Option.some.inj (hk.symm.trans (Option.mem_toList.1 hl))
    | running | joined | handed | heard => cases hl
  rw [hS.desk.seen]
  exact hp

/-- What a callback is due to be told. -/
theorem due_cases {l : LatchId} {x : Except String Reply}
    (hd : (l, x) ∈ (notes s.desk.seen).flatMap Note.dues) :
    (∃ exit, (l, exit) ∈ Joining.handed s ∧ x = told exit) ∨
      (x = interrupted ∧ .left l ∈ notes s.desk.seen) := by
  obtain ⟨st, hc, -⟩ := exists_course hS
  rw [hc.dues_eq, Stage.dues, List.mem_append, List.mem_map, List.mem_map] at hd
  obtain ⟨l', hl, heq⟩ | ⟨⟨l', exit⟩, hx, heq⟩ := hd
  · obtain ⟨rfl, rfl⟩ := Prod.mk.inj heq
    exact .inr ⟨rfl, hc.left_iff.2 hl⟩
  · obtain ⟨rfl, rfl⟩ := Prod.mk.inj heq
    refine .inl ⟨exit, ?_, rfl⟩
    rw [Joining.handed, hc.hands_eq]
    exact hx

theorem first_due {l : LatchId} {x : Except String Reply} (hf : first l s.desk.seen = some x) :
    (l, x) ∈ (notes s.desk.seen).flatMap Note.dues := by
  rw [hS.desk.seen] at hf ⊢
  exact hS.holds.inv.first_due hf

/-- Once all have made their steps, whoever has opened a callback has been called. -/
theorem told_of_rests (hr : ∀ q ∈ s.desk.parties, q.Rests) {exit : Delivery} (he : s.Ended exit)
    {i : Nat} {l : LatchId} (hl : .opened i l ∈ s.desk.seen) : ∃ x, .told l x ∈ s.desk.seen := by
  have hsteps : ∀ {j : Nat} {d : Deed} {phase : Phase}, fl.agents[j]? ≠ some (.at d (.inl phase)) := by
    intro j d phase hj
    have hlt := (List.getElem?_eq_some_iff.1 hj).1
    rw [hS.desk.length] at hlt
    obtain ⟨l, hop⟩ := hS.desk.rested (List.getElem?_eq_getElem hlt) (hr _ (List.getElem_mem hlt)) hj
    exact (keeps f).moves d phase l hop
  obtain ⟨st, hc, -⟩ := exists_course hS
  have hcallback : l ∈ st.callbacks := by
    rw [← hc.callbacks_eq]
    rw [hS.desk.seen] at hl ⊢
    exact (hS.holds.listens i l hl).resolve_right hsteps
  have hexit : exit ∈ st.exits := by
    have hissued : .complete exit ∈ issued s.desk.parties := by
      refine List.mem_filter.2 ⟨?_, rfl⟩
      have hexits : exit ∈ exits s.desk.parties := by
        rw [hS.exits, show s.job = .ended exit from he]
        exact List.mem_singleton_self exit
      obtain ⟨v, hv, hexit⟩ := List.mem_filterMap.1 hexits
      cases v with
      | complete exit' =>
        obtain rfl := Option.some.inj hexit
        exact hv
      | _ => cases hexit
    obtain hdone | hcoming := List.mem_append.1 (hS.holds.issued.mem_iff.2 hissued)
    · rw [← hS.desk.seen] at hdone
      obtain ⟨n, hn, hv⟩ := List.mem_flatMap.1 hdone
      cases n with
      | completed exit' joiner =>
        obtain rfl := Visit.complete.inj (List.mem_singleton.1 hv)
        exact hc.completed_iff.1 ⟨joiner, hn⟩
      | joined | heard | missed => cases List.mem_singleton.1 hv
      | _ => cases hv
    · obtain ⟨agent, hagent, hv⟩ := List.mem_flatMap.1 hcoming
      obtain ⟨j, hj⟩ := List.mem_iff_getElem?.1 hagent
      cases agent with
      | idle => cases List.mem_singleton.1 hv
      | «at» d next =>
        obtain phase | answer := next
        · exact absurd hj hsteps
        · cases d <;> cases hv
  obtain ⟨x, hx⟩ := Stage.exists_due hcallback hexit
  have hall := hS.holds.inv.told_all (keeps f) hS.desk hr
  refine ⟨x, ?_⟩
  rw [← hc.dues_eq] at hx
  rw [hS.desk.seen] at hx ⊢
  exact (mem_tolds _).1 (hall.mem_iff.2 hx)

theorem joiner_ends {i : Nat} {q : Party Visit} {exit : Exit} (hq : s.desk.parties[i]? = some q)
    (hcall : q.call = some .join) (he : q.Ends exit) :
    (exit = .canceled ∧ ∀ l, .opened i l ∉ s.desk.seen) ∨ ∃ l, .opened i l ∈ s.desk.seen ∧
      ((s.Ended (.ok exit) ∧ (l, .ok exit) ∈ Joining.handed s) ∨
        (exit = .canceled ∧ .left l ∈ notes s.desk.seen)) := by
  obtain hnone | ⟨l, reply, hl, hfirst, rfl⟩ := hS.desk.ends hq hcall rfl he
  · exact .inl hnone
  · refine .inr ⟨l, hl, ?_⟩
    obtain ⟨exit, hm, hx⟩ | ⟨hx, hleft⟩ := due_cases hS (first_due hS hfirst)
    · obtain rfl := told_eq_ok hx
      exact .inl ⟨(ended_of_handed hS hm).1, hm⟩
    · obtain rfl := Except.ok.inj hx
      exact .inr ⟨rfl, hleft⟩

theorem joiner_panics {i : Nat} {q : Party Visit} {message : String}
    (hq : s.desk.parties[i]? = some q) (hcall : q.call = some .join)
    (ha : q.activity = ⟨.unwinding message, []⟩) : ∃ l, .opened i l ∈ s.desk.seen ∧
      s.Ended (.error message) ∧ (l, .error message) ∈ Joining.handed s := by
  obtain ⟨l, hl, hfirst⟩ := hS.desk.panics hq hcall rfl ha
  obtain ⟨exit, hm, hx⟩ | ⟨hx, -⟩ := due_cases hS (first_due hS hfirst)
  · obtain rfl := told_eq_error hx
    exact ⟨l, hl, (ended_of_handed hS hm).1, hm⟩
  · cases hx

theorem left_kept {l : LatchId} {exit : Delivery} {joiner : Option LatchId}
    (hl : .left l ∈ notes s.desk.seen) (hn : .completed exit joiner ∈ notes s.desk.seen) :
    joiner = none ∧
      ∃ state, s.desk.world.fibers[f]? = some state ∧ state.slot = .finished (some exit) := by
  obtain ⟨st, hc, hslot⟩ := exists_course hS
  obtain ⟨hst, -⟩ := Stage.slot_of_left (hc.left_iff.1 hl) (hc.completed_iff.1 ⟨joiner, hn⟩)
  refine ⟨?_, fl.state, hS.desk.state, hslot.trans hst⟩
  cases joiner with
  | none => rfl
  | some l' =>
    have hm : (l', exit) ∈ Joining.handed s :=
      List.mem_flatMap.2 ⟨_, hn, List.mem_singleton_self _⟩
    rw [left_handed hS hl] at hm
    cases hm

theorem gate_opens {before rest : List (Sign Note)}
    (heq : s.desk.seen = before ++ .noted .opened :: rest) :
    ∃ exit, s.Ended exit ∧ Recorded before exit := by
  rw [hS.desk.seen] at heq
  obtain ⟨exit, hr⟩ := hS.holds.ordered.gates heq
  obtain ⟨joiner, hn, -⟩ := id hr
  have hcompleted : .completed exit joiner ∈ notes s.desk.seen := by
    rw [mem_notes, hS.desk.seen, heq]
    exact List.mem_append_left _ hn
  exact ⟨exit, ended_of_completed hS hcompleted, hr⟩

/-- The gate has been opened if somebody has passed it. -/
theorem waiter_returns {i : Nat} {q : Party Visit} {n : Node} (hq : s.desk.parties[i]? = some q)
    (hcall : q.call = some .await) (hg : q.Gives n) :
    .opened ∈ notes s.desk.seen ∧ ∃ exit, s.Ended exit := by
  obtain ⟨a, hagent, -⟩ := hS.desk.gives hq hcall rfl hg
  have hpassed : ∃ gate, Note.passed gate ∈ notes fl.seen := (hS.holds.inv.agents hagent).2
  obtain ⟨gate, hpassed⟩ := hpassed
  have hnote := hpassed
  rw [← hS.desk.seen, mem_notes] at hnote
  obtain rfl := hS.passed gate hnote
  have hopened := hS.holds.inv.legal.passed hpassed
  rw [← hS.desk.seen] at hopened
  obtain ⟨before, rest, heq⟩ := List.append_of_mem ((mem_notes _).1 hopened)
  obtain ⟨exit, he, -⟩ := gate_opens hS heq
  exact ⟨hopened, exit, he⟩

theorem party_spares {q : Party Visit} {op : Op} (hq : q ∈ s.desk.parties)
    (hop : q.activity.op? = some op) (c : ConnectionId) : op ≠ .connection c .cancel := by
  obtain ⟨i, hi⟩ := List.mem_iff_getElem?.1 hq
  obtain ⟨agent, hagent, hat⟩ := hS.desk.party hi
  obtain ⟨call, place, a⟩ := q
  have hcodeAt : ∀ {d : Deed} {next : Phase ⊕ Answer} {k : Answer → Code} {stack : List Frame},
      (∀ answer op, (⟨.code (k answer), stack⟩ : Activity).op? = some op → op ≠ .connection c .cancel) →
        (⟨.code ((procedure f).codeAt d k next), stack⟩ : Activity).op? = some op →
          op ≠ .connection c .cancel := by
    intro d next k stack hk hop
    obtain phase | answer := next
    · obtain rfl : (procedure f).op d phase = op := Option.some.inj hop
      cases phase <;> simp [procedure]
    · exact hk answer op hop
  cases hat with
  | @now g r k next hg =>
    refine hcodeAt (fun answer op' hk => ?_) hop
    cases g <;> cases hg <;> cases hk
  | token => exact hcodeAt (fun answer op' hk => by cases hk) hop
  | asking =>
    rw [Suspension.asking_eq] at hop
    cases hop
    simp
  | opening => cases hop; simp
  | refused | ended => cases hop
  | @registering g r c' l next hg hl =>
    refine hcodeAt (fun answer op' hk => ?_) hop
    have hcode : ((procedure f).guard (r l) answer).andThen (Suspension.after c' l) =
        Suspension.after c' l (.token (((procedure f).undo (r l) answer).map (procedure f).token)) :=
      rfl
    rw [hcode] at hk
    obtain ⟨token, -, ha⟩ | ha := Suspension.after_cases (c := c') (l := l)
      (.token (((procedure f).undo (r l) answer).map (procedure f).token))
    · rw [ha] at hk
      cases hk
      simp
    · rw [ha] at hk
      cases hk
      simp
  | late => exact hcodeAt (fun answer op' hk => by cases hk) hop
  | waiting | leaving => cases hop; simp
  | panicking | panicked => cases hop

theorem handed_of_stands : Handed f node run s where
  working hg := hS.works _ hg
  completed hn := ended_of_completed hS hn
  handed_once := by
    obtain ⟨st, hc, -⟩ := exists_course hS
    rw [Joining.handed, hc.hands_eq]
    obtain hnone | ⟨l, exit, hhands, -, -⟩ := st.hands_cases
    · simp [hnone]
    · simp [hhands]
  handed_exit hm := (ended_of_handed hS hm).1
  told_once := by
    rw [hS.desk.seen]
    exact hS.holds.inv.told_once (keeps f)
  told := by
    intro l x hm
    have hd : (l, x) ∈ (notes s.desk.seen).flatMap Note.dues := by
      rw [hS.desk.seen] at hm ⊢
      exact hS.holds.inv.told_due hm
    obtain ⟨exit, hh, rfl⟩ | ⟨rfl, hl⟩ := due_cases hS hd
    · obtain ⟨he, hleft⟩ := ended_of_handed hS hh
      exact .inl ⟨exit, he, hh, rfl, hleft⟩
    · exact .inr ⟨rfl, hl, left_pushed hS hl, left_handed hS hl⟩
  told_all := by
    rintro hr ⟨exit, he⟩ i l hl
    exact told_of_rests hS hr he hl
  ends hq hcall he := joiner_ends hS hq hcall he
  panics hq hcall ha := joiner_panics hS hq hcall ha
  spares hq hop c := party_spares hS hq hop c
  kept hl hn := left_kept hS hl hn
  gate := ⟨fl.state, hS.desk.state, by rw [hS.desk.seen]; exact hS.holds.inv.legal.gate⟩
  opens heq := gate_opens hS heq
  returns hq hcall hg := waiter_returns hS hq hcall hg
  cancelers hg n := (hS.cancelers _ hg).not_build n

end Scenes

/-- In whatever order the fiber, its joiner, that one's canceler, and those who cancel the fiber take
their steps. -/
theorem exit_meets_one_fate (f : FiberId) (node : Node) (run : Run) {w : World} {place : Place}
    {c : ConnectionId} (hw : w.fibers[f]? = some ⟨c, .new, .closed⟩)
    (h : Runs f (.start f node run w place) s)
    (hone : (visits s.desk.parties).countP Visit.joins ≤ 1) : Handed f node run s := by
  obtain ⟨fl, hS⟩ := (Stands.start hw).runs h hone
  exact handed_of_stands hS

theorem exits_runs {d d' : Service.Scene Visit Note} (h : Service.Runs (subject f) d d') :
    exits d.parties <+: exits d'.parties := by
  induction h with
  | refl => exact List.prefix_rfl
  | tail _ hm ih =>
    obtain ⟨more, hmore⟩ := visits_moves hm
    refine ih.trans ⟨more.filterMap Visit.exit?, ?_⟩
    rw [exits, exits, hmore, List.filterMap_append]

theorem Runs.desk {d : Service.Scene Visit Note} (h : Service.Runs (subject f) s.desk d)
    (he : exits d.parties = exits s.desk.parties) : Runs f s { s with desk := d } := by
  induction h with
  | refl => exact .refl
  | tail hbefore hm ih =>
    have hfirst := exits_runs hbefore
    have hlast := exits_runs (.single hm)
    have hsame := hfirst.eq_of_length_le (he ▸ hlast.length_le)
    exact .tail (ih hsame.symm) (.desk hm (he.trans hsame))

theorem exit_meets_one_fate_of_left :
    ∃ (f : FiberId) (node : Node) (run : Run) (w : World) (place : Place) (c : ConnectionId)
      (s : Scene), w.fibers[f]? = some ⟨c, .new, .closed⟩ ∧ Runs f (.start f node run w place) s ∧
        (visits s.desk.parties).countP Visit.joins ≤ 1 ∧
        notes s.desk.seen = [.joined 0, .left 0, .completed (.ok (.completed (.nat 7))) none, .opened,
          .passed .opened] ∧
        tolds s.desk.seen = [(0, interrupted)] ∧ Handed f node run s := by
  let w : World := { World.start with
    fibers := #[⟨1, .new, .closed⟩], connections := #[.uncancelable, .new, .new] }
  let here : Place := ⟨"caller", none⟩
  let node : Node := .pure (.nat 7)
  let run : Run := ⟨0, 1⟩
  let w' := w.setConnection 1 .canceled
  let exit : Exit := .completed (.nat 7)
  -- A thread cancels the fiber and then waits, and the computation comes to its end.
  let s₁ : Scene := ⟨⟨w', [⟨some .await, here, ⟨.code (awaiting 0), []⟩⟩], []⟩,
    .working ⟨here, ⟨.code (task 0 node run), []⟩⟩, []⟩
  have haway : ∀ (op : Op) (k : Reply → Code), (∀ c, op ≠ .connection c .isCanceled) →
      (∀ o, op = .fiber 0 o → o = .connection) → ∀ (v : Visit) (c : ConnectionId) (x : Code),
        (v.node 0).called c = some x → (⟨.code (.perform op k), []⟩ : Activity) ≠ ⟨.code x, []⟩ := by
    intro op k hconn hfiber v c x hx heq
    cases v with
    | join =>
      obtain rfl := Option.some.inj hx
      cases heq
      exact hconn _ rfl
    | await =>
      obtain rfl := Option.some.inj hx
      cases heq
      cases hfiber _ rfl
    | complete e =>
      obtain rfl := Option.some.inj hx
      cases heq
      cases hfiber _ rfl
  have hcancels : Runs 0 (.start 0 node run w here) s₁ := by
    let cancel : Code := .perform (.connection 1 .cancel) fun _ => awaiting 0
    have hbegins : Abroad 0 ⟨w, [], []⟩ ⟨here, ⟨.code (canceling 0), []⟩⟩ := by
      refine ⟨.inr rfl, by rintro _ ⟨⟩; rfl, haway _ _ (by simp) (by simp), rfl, by simp⟩
    have hruns : Abroad 0 ⟨w, [], []⟩ ⟨here, ⟨.code cancel, []⟩⟩ := by
      refine ⟨.inr rfl, by rintro _ ⟨⟩; rfl, haway _ _ (by simp) (by simp), rfl, by simp⟩
    refine .head (.cancels here) (.head (@Moves.runs 0 _ [] [] _ rfl hbegins) ?_)
    refine .head (@Moves.runs 0 _ [] [] ⟨here, ⟨.code cancel, []⟩⟩ rfl hruns) ?_
    exact .single (@Moves.waits 0 _ [] [] here rfl)
  let s₂ : Scene := ⟨⟨w', s₁.desk.parties ++ [⟨some (.complete (.ok exit)), here,
    ⟨.code (completing 0 (.ok exit)), []⟩⟩], []⟩, .ended (.ok exit), []⟩
  have hworks : Runs 0 s₁ s₂ := by
    have hstep : ∀ (a a' : Activity), a.stack ≠ [] ∨ a.control.settles = false →
        (∀ op, a.op? = some op → w'.ready op = true) →
        (∀ (v : Visit) (c : ConnectionId) (x : Code), (v.node 0).called c = some x →
          a ≠ ⟨.code x, []⟩) → w'.act here a = (w', a') →
        Moves 0 { s₁ with job := .working ⟨here, a⟩ } { s₁ with job := .working ⟨here, a'⟩ } := by
      intro a a' hs hready haway hact
      have hworld : (w'.act here a).1 = w' := by rw [hact]
      have habroad : Abroad 0 s₁.desk ⟨here, a⟩ :=
        ⟨hs, hready, haway, by rw [Guest.act, hworld], by simp [s₁]⟩
      have hmove := Moves.works (s := { s₁ with job := .working ⟨here, a⟩ }) rfl habroad
      rw [Guest.act, Guest.next] at hmove
      simp only [hact, s₁] at hmove
      exact hmove
    let ended : Code := .give (.ended exit run)
    refine .head (hstep _ ⟨.code (body node run), [.attempt (caught 0)]⟩ (.inr rfl)
      (by rintro _ ⟨⟩; rfl) (haway _ _ (by simp) (by simp)) rfl) ?_
    refine .head (hstep _ ⟨.drive (.focus node []) run, [.call .give, .attempt (caught 0)]⟩
      (.inl (by simp)) (by rintro _ ⟨⟩; rfl) (by simp) rfl) ?_
    refine .head (hstep _ ⟨.code ended, [.call .give, .attempt (caught 0)]⟩ (.inl (by simp))
      (by rintro _ ⟨⟩) (by simp) rfl) ?_
    refine .head (hstep _ ⟨.code ended, [.attempt (caught 0)]⟩ (.inl (by simp)) (by rintro _ ⟨⟩)
      (by simp) rfl) ?_
    refine .head (hstep _ ⟨.code (completing 0 (.ok exit)), []⟩ (.inl (by simp)) (by rintro _ ⟨⟩)
      (by simp) rfl) ?_
    exact .single (.ends rfl)
  -- Another one joins it, and is canceled before the fiber completes.
  let acts (i : Nat) (n : Nat) : List (Cue Visit) := List.replicate n (.acts i)
  let cues := .asks .join 2 :: acts 2 4 ++ .runs 2 :: acts 3 2 ++ acts 1 2 ++ acts 0 1
  have hrun : ((cues.foldlM (Service.Scene.takes (subject 0) here) s₂.desk).map
      fun d => (visits d.parties, notes d.seen, tolds d.seen)) =
        some ([.await, .complete (.ok exit), .join], [.joined 0, .left 0, .completed (.ok exit) none, .opened,
          .passed .opened], [(0, interrupted)]) := by
    cbv
  obtain ⟨d, hd, hseen⟩ := Option.map_eq_some_iff.1 hrun
  obtain ⟨hvisits, hseen⟩ := Prod.mk.inj hseen
  obtain ⟨hnotes, htolds⟩ := Prod.mk.inj hseen
  have hdesk : Runs 0 s₂ { s₂ with desk := d } := .desk (.takes hd) (by rw [exits, hvisits]; rfl)
  have hall := (hcancels.trans hworks).trans hdesk
  have hone : (visits d.parties).countP Visit.joins ≤ 1 := by rw [hvisits]; decide
  exact ⟨0, node, run, w, here, 1, _, rfl, hall, hone, hnotes, htolds,
    exit_meets_one_fate 0 node run rfl hall hone⟩

end Effects.Joining
