import Effects.Proofs.Join.Holds
import Effects.Proofs.Join.Scene
import Mathlib.Data.List.Nodup

/-!
What holds in every scene of a fiber, whatever the threads do in whatever order, as long as it is
joined once.
-/

namespace Effects.Joining

open Service

variable {f : FiberId} {node : Node} {run : Run} {s t : Scene} {fl : FiberFloor}

def Visit.counts : Visit → Bool
  | .await => false
  | _ => true

/-- What is done once only. -/
def issued (parties : List (Party Visit)) : List Visit := (visits parties).filter Visit.counts

section Parties

variable {parties : List (Party Visit)}

theorem count_counts (vs : List Visit) (b : Bool) :
    ((vs.filter Visit.counts).map Visit.joins).count b =
      if b then vs.countP Visit.joins else (vs.filterMap Visit.exit?).length := by
  induction vs with
  | nil => cases b <;> rfl
  | cons v vs ih =>
    cases b <;> cases v <;>
      simpa [List.filter_cons, List.filterMap_cons, List.countP_cons, Visit.counts, Visit.joins,
        Visit.exit?] using ih

theorem issued_nodup (hj : (visits parties).countP Visit.joins ≤ 1)
    (he : (exits parties).length ≤ 1) : ((issued parties).map Visit.joins).Nodup := by
  rw [List.nodup_iff_count_le_one]
  intro b
  rw [issued, count_counts]
  cases b
  · exact he
  · exact hj

/-- Who goes on has still come for the same. -/
theorem visits_set {i : Nat} {p : Party Visit} (hp : parties[i]? = some p) (a : Activity) :
    visits (parties.set i { p with activity := a }) = visits parties := by
  obtain ⟨hlt, rfl⟩ := List.getElem?_eq_some_iff.1 hp
  have hcalls : ∀ ps : List (Party Visit), visits ps = (ps.map (·.call)).filterMap id := by
    intro ps
    rw [List.filterMap_map]
    rfl
  rw [hcalls, hcalls, List.map_set]
  have hlt' : i < (parties.map (·.call)).length := by simpa using hlt
  have hsame := List.set_getElem_self hlt'
  rw [List.getElem_map] at hsame
  rw [hsame]

theorem visits_concat (p : Party Visit) : visits (parties ++ [p]) = visits parties ++ p.call.toList := by
  rw [visits, List.filterMap_append]
  cases hp : p.call <;> simp [visits, hp]

theorem issued_concat (p : Party Visit) :
    issued (parties ++ [p]) = issued parties ++ p.call.toList.filter Visit.counts := by
  rw [issued, visits_concat, List.filter_append]
  rfl

theorem exits_concat (p : Party Visit) :
    exits (parties ++ [p]) = exits parties ++ p.call.toList.filterMap Visit.exit? := by
  rw [exits, visits_concat, List.filterMap_append]
  rfl

end Parties

def Job.exit? : Job → Option Delivery
  | .working _ => none
  | .ended exit => some exit

/-- What holds in a scene. -/
structure Stands (f : FiberId) (node : Node) (run : Run) (fl : FiberFloor) (s : Scene) : Prop where
  desk : Service.Stands (procedure f) (subject f) fl s.desk
  holds : Holds f (issued s.desk.parties) fl
  exits : exits s.desk.parties = s.job.exit?.toList
  works : ∀ g, s.job = .working g → Working f node run g.activity
  cancelers : ∀ g ∈ s.cancelers, Canceling f g.activity
  /-- Whoever waits for the end goes on when the gate is open. -/
  passed : ∀ gate, .noted (.passed gate) ∈ s.desk.seen → gate = .opened

section Desk

variable {d : Service.Scene Visit Note} {v : Visit} {c : ConnectionId} {x : Code}

theorem coming_newcomer (v : Visit) :
    coming ((procedure f).newcomer v) = (some v).toList.filter Visit.counts := by
  cases v <;> rfl

theorem holds_comes (hd : Service.Stands (procedure f) (subject f) fl d)
    (hh : Holds f (issued d.parties) fl) (place : Place) (hx : (v.node f).called c = some x)
    (ho : ((issued (d.parties ++ [⟨some v, place, ⟨.code x, []⟩⟩])).map Visit.joins).Nodup) :
    ∃ fl', Service.Stands (procedure f) (subject f) fl'
        { d with parties := d.parties ++ [⟨some v, place, ⟨.code x, []⟩⟩] } ∧
      Holds f (issued (d.parties ++ [⟨some v, place, ⟨.code x, []⟩⟩])) fl' := by
  refine ⟨_, hd.asks (serves f) place hx, ?_⟩
  rw [issued_concat, ← coming_newcomer (f := f)] at ho ⊢
  exact hh.joins ho (.newcomer (procedure f) fl v)

theorem holds_tokenRuns (hd : Service.Stands (procedure f) (subject f) fl d)
    (hh : Holds f (issued d.parties) fl) (place : Place) {token : Code}
    (ht : .pushed token ∈ d.seen) (ho : ((issued d.parties).map Visit.joins).Nodup) :
    ∃ fl', Service.Stands (procedure f) (subject f) fl'
        { d with parties := d.parties ++ [⟨none, place, ⟨.code token, []⟩⟩] } ∧
      Holds f (issued d.parties) fl' := by
  obtain ⟨r, hr, hnew⟩ := hd.tokenRuns place ht
  obtain ⟨⟨l, rfl⟩, -⟩ := hh.inv.given r hr
  have hsame : issued d.parties ++ coming (.at (.detach l) (.inl .first)) = issued d.parties :=
    List.append_nil _
  have hjoins := hh.joins (hsame.symm ▸ ho) (.runs hr)
  exact ⟨_, hnew, hsame ▸ hjoins⟩

theorem passed_signs {i : Nat} {w : World} {op : Op} {gate : Gate}
    (hm : .noted (.passed gate) ∈ signs (subject f) i w op) (hready : w.ready op = true) :
    gate = .opened := by
  cases op with
  | fiber g op =>
    have hm : Note.passed gate ∈ (subject f).note w (.fiber g op) := by
      simpa [signs, added] using hm
    simp only [subject] at hm
    split at hm
    · cases hs : w.fibers[g]? with
      | none => simp [hs] at hm
      | some s =>
        simp only [hs, Option.elim_some] at hm
        cases op with
        | awaitFinished =>
          obtain rfl := Note.passed.inj (List.mem_singleton.1 hm)
          simp only [World.ready, hs, Option.any_some] at hready
          cases hgate : s.gate with
          | opened => rfl
          | closed => simp [hgate, Gate.isOpen] at hready
        | listen | detach =>
          simp only [FiberOp.notes] at hm
          split at hm <;> simp at hm
        | _ => simp [FiberOp.notes] at hm
    · cases hm
  | connection d op => cases op <;> simp [signs, added, subject] at hm
  | _ => simp [signs, added, subject] at hm

/-- A step of one of those who are there. -/
theorem holds_acts {i : Nat} {p : Party Visit} (hd : Service.Stands (procedure f) (subject f) fl d)
    (hh : Holds f (issued d.parties) fl) (ho : ((issued d.parties).map Visit.joins).Nodup)
    (hp : d.parties[i]? = some p)
    (hs : p.activity.stack ≠ [] ∨ p.activity.control.settles = false)
    (hready : ∀ op, p.activity.op? = some op → d.world.ready op = true) :
    ∃ fl', Service.Stands (procedure f) (subject f) fl'
        ⟨(d.world.act p.place p.activity).1,
          d.parties.set i { p with activity := (d.world.act p.place p.activity).2 },
          d.seen ++ (p.activity.op?.map (signs (subject f) i d.world)).getD []⟩ ∧
      Holds f (issued d.parties) fl' := by
  obtain ⟨fl', hturns, hnew⟩ := hd.acts (serves f) (hh.inv.told_opened (keeps f)) hp hs hready
  refine ⟨fl', hnew, hh.turns ho hturns ?_⟩
  rw [hnew.length, hd.length, List.length_set]

end Desk

theorem visits_moves {d d' : Service.Scene Visit Note} (h : Service.Moves (subject f) d d') :
    ∃ more, visits d'.parties = visits d.parties ++ more := by
  cases h with
  | acts hp => exact ⟨[], by rw [visits_set hp, List.append_nil]⟩
  | asks | runs => exact ⟨_, visits_concat _⟩
  | others => exact ⟨[], (List.append_nil _).symm⟩

theorem Moves.visits (h : Moves f s t) :
    ∃ more, visits t.desk.parties = visits s.desk.parties ++ more := by
  cases h with
  | desk h he => exact visits_moves h
  | works | cancels | runs => exact ⟨[], (List.append_nil _).symm⟩
  | ends | waits => exact ⟨_, visits_concat _⟩

theorem Stands.desks (hS : Stands f node run fl s) {d : Service.Scene Visit Note}
    (h : Service.Moves (subject f) s.desk d) (he : Joining.exits d.parties = Joining.exits s.desk.parties)
    (hone : (visits d.parties).countP Visit.joins ≤ 1) :
    ∃ fl', Stands f node run fl' { s with desk := d } := by
  have hexits : Joining.exits d.parties = s.job.exit?.toList := he.trans hS.exits
  have ho : ((issued d.parties).map Visit.joins).Nodup := by
    refine issued_nodup hone ?_
    rw [hexits]
    exact Option.length_toList_le
  cases h with
  | @acts i p hp hs hready =>
    rw [issued, visits_set hp, ← issued] at ho
    obtain ⟨fl', hnew, hh⟩ := holds_acts hS.desk hS.holds ho hp hs hready
    refine ⟨fl', hnew, ?_, hexits, hS.works, hS.cancelers, ?_⟩
    · rw [issued, visits_set hp]
      exact hh
    · intro gate hm
      obtain hm | hm := List.mem_append.1 hm
      · exact hS.passed gate hm
      · cases hop : p.activity.op? with
        | none => simp [hop] at hm
        | some op =>
          simp only [hop, Option.map_some, Option.getD_some] at hm
          exact passed_signs hm (hready op hop)
  | asks call c place hx =>
    obtain ⟨fl', hnew, hh⟩ := holds_comes hS.desk hS.holds place hx ho
    exact ⟨fl', hnew, hh, hexits, hS.works, hS.cancelers, hS.passed⟩
  | runs place ht =>
    have hsame : ∀ p : Party Visit, p.call = none →
        issued (s.desk.parties ++ [p]) = issued s.desk.parties := by
      intro p hp
      rw [issued_concat, hp]
      exact List.append_nil _
    rw [hsame _ rfl] at ho
    obtain ⟨fl', hnew, hh⟩ := holds_tokenRuns hS.desk hS.holds place ht ho
    refine ⟨fl', hnew, ?_, hexits, hS.works, hS.cancelers, hS.passed⟩
    rw [hsame _ rfl]
    exact hh
  | others w hw hl =>
    exact ⟨fl, hS.desk.others hw hl, hS.holds, hexits, hS.works, hS.cancelers, hS.passed⟩

/-- A step of one who is still on the way. -/
theorem Stands.abroad (hS : Stands f node run fl s) {g : Guest} (hg : Abroad f s.desk g) :
    Service.Stands (procedure f) (subject f) fl (g.act s.desk) :=
  hS.desk.others hg.state hg.latches

theorem Stands.moves (hS : Stands f node run fl s) (h : Moves f s t)
    (hone : (visits t.desk.parties).countP Visit.joins ≤ 1) : ∃ fl', Stands f node run fl' t := by
  cases h with
  | desk h he => exact hS.desks h he hone
  | @works g hjob hg =>
    refine ⟨fl, hS.abroad hg, hS.holds, ?_, ?_, hS.cancelers, hS.passed⟩
    · rw [show Joining.exits (g.act s.desk).parties = Joining.exits s.desk.parties from rfl, hS.exits,
        hjob]
      rfl
    · intro g' hg'
      obtain rfl := Job.working.inj hg'
      exact (hS.works g hjob).act fun exit => hg.away (.complete exit) 0 _ rfl
  | @ends place exit hjob =>
    have hexits : Joining.exits (s.desk.parties ++
        [⟨some (.complete exit), place, ⟨.code (completing f exit), []⟩⟩]) = [exit] := by
      rw [exits_concat, hS.exits, hjob]
      rfl
    obtain ⟨fl', hnew, hh⟩ := holds_comes hS.desk hS.holds (c := 0) place rfl
      (issued_nodup hone (by rw [hexits]; exact Nat.le_refl 1))
    refine ⟨fl', hnew, hh, hexits, ?_, hS.cancelers, hS.passed⟩
    intro g hg
    cases hg
  | cancels place =>
    refine ⟨fl, hS.desk, hS.holds, hS.exits, hS.works, ?_, hS.passed⟩
    intro g hg
    obtain hg | hg := List.mem_append.1 hg
    · exact hS.cancelers g hg
    · obtain rfl := List.mem_singleton.1 hg
      exact .begins
  | @runs before after g hc hg =>
    refine ⟨fl, hS.abroad hg, hS.holds, hS.exits, hS.works, ?_, hS.passed⟩
    intro g' hg'
    have hcancelers := hS.cancelers
    rw [hc] at hcancelers
    obtain hg' | hg' := List.mem_append.1 hg'
    · exact hcancelers g' (List.mem_append_left _ hg')
    · obtain rfl | hg' := List.mem_cons.1 hg'
      · have hbefore := hcancelers g (List.mem_append_right _ (List.mem_cons_self ..))
        exact hbefore.act hg.moves (hg.away .await 0 _ rfl)
      · exact hcancelers g' (List.mem_append_right _ (List.mem_cons_of_mem _ hg'))
  | @waits before after place hc =>
    have hexits : Joining.exits (s.desk.parties ++ [⟨some .await, place, ⟨.code (awaiting f), []⟩⟩]) =
        s.job.exit?.toList := by
      rw [exits_concat, hS.exits]
      exact List.append_nil _
    obtain ⟨fl', hnew, hh⟩ := holds_comes hS.desk hS.holds (c := 0) place rfl
      (issued_nodup hone (by rw [hexits]; exact Option.length_toList_le))
    refine ⟨fl', hnew, hh, hexits, hS.works, ?_, hS.passed⟩
    intro g hg
    refine hS.cancelers g ?_
    rw [hc]
    obtain hg | hg := List.mem_append.1 hg
    · exact List.mem_append_left _ hg
    · exact List.mem_append_right _ (List.mem_cons_of_mem _ hg)

theorem Stands.start {w : World} {place : Place} {c : ConnectionId}
    (hw : w.fibers[f]? = some ⟨c, .new, .closed⟩) :
    Stands f node run (Floor.start ⟨c, .new, .closed⟩) (.start f node run w place) where
  desk := .start hw
  holds := by
    refine ⟨.start ⟨⟨.running, .new, rfl⟩, by simp, by simp⟩ rfl rfl, ⟨?_, ?_⟩, .refl _, ?_, ?_⟩
    · intro i exit hi
      simp [Floor.start] at hi
    · intro before rest h
      simp [Floor.start] at h
    · intro i l hl
      cases hl
    · intro n hn
      cases hn
  exits := rfl
  works := by
    intro g hg
    obtain rfl := Job.working.inj hg
    exact .dispatched
  cancelers := by
    intro g hg
    cases hg
  passed := by
    intro gate hm
    cases hm

theorem Stands.runs (hS : Stands f node run fl s) (h : Runs f s t)
    (hone : (visits t.desk.parties).countP Visit.joins ≤ 1) : ∃ fl', Stands f node run fl' t := by
  induction h with
  | refl => exact ⟨fl, hS⟩
  | tail _ hm ih =>
    obtain ⟨more, hvisits⟩ := hm.visits
    have hbefore := hone
    rw [hvisits, List.countP_append] at hbefore
    obtain ⟨fl', hS'⟩ := ih (by omega)
    exact hS'.moves hm hone

end Effects.Joining
