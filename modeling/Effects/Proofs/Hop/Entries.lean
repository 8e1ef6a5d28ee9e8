import Effects.Effect
import Effects.Proofs.Hop.Arrives

/-!
The ways to run an effect. Each goes through the effect once, from the same context and with a
connection of its own, and goes on with the same outcome, or with the panic that came instead.
-/

namespace Effects

open Activity

section Wrapped

variable {s : Passage} {r : Except String Reply} {fs : List Frame} {node : Node} {run : Run}
  {k : Reply → Code} {message : String}

end Wrapped

variable {ε α : Type} [Datum ε] [Datum α]

/-- The caller goes on with the outcome, or a panic goes on in the caller. -/
def resumed (k : Outcome ε α → Code) (fs : List Frame) : Except String (Outcome ε α) → Activity
  | .ok o => ⟨.code (k o), fs⟩
  | .error message => ⟨.unwinding message, fs⟩

/-- The callback is called with the outcome, or dropped before a panic goes on. -/
def told (callback : Outcome ε α → Routine Unit) (dropped : Routine Unit) :
    Except String (Outcome ε α) → Code
  | .ok o => Routine.task (callback o)
  | .error message => dropped fun _ => .panic message

/-- An outcome as one thread hands it to another. -/
def handed (x : Except String (Outcome ε α)) : Except String Reply :=
  x.map fun o => .outcome (o.map write write)

/-- The thread that has been handed something goes on with it. -/
def received (k : Outcome ε α → Code) (result : Except String Reply) : Code :=
  (Routine.rethrow result : Routine Reply) fun r => k (r.toExit.map read read)

/-- A piece of code that runs an effect, with what it goes on with and above which frames. -/
inductive Entry (ε α : Type) where
  | outcome (k : Outcome ε α → Code) (fs : List Frame)
  | result (k : Except ε α → Code) (fs : List Frame)
  /-- What is dispatched to run the effect on a connection, and not waited for. -/
  | task (d : ConnectionId) (callback : Outcome ε α → Routine Unit) (dropped : Routine Unit)
      (fs : List Frame)
  /-- What runs the effect on a thread of its own, for one who waits for the latch. -/
  | apart (l : LatchId)

namespace Effect

/-- A run of the effect may have these moments and then end like this. -/
def Comes (e : Effect ε α) (run : Run) (t : Passage) (x : Except String (Outcome ε α)) : Prop :=
  ∃ y, Proceeds ⟨.drive (.focus e.node []) run, []⟩ t (yielding y) ∧
    x = y.map fun p => p.1.map read read

variable (e : Effect ε α) (c : ContextId)

def driving (d : ConnectionId) : Op := .drive (.focus e.node []) ⟨c, d⟩

def telling : Code := e.outcomeOn c fun o => .give (.outcome (o.map write write))

/-- A connection is opened, and the effect is driven on it. -/
def Opens (before : Passage) (d : ConnectionId) : Prop :=
  ∃ w here w' here', d = w.connections.size ∧
    before = [⟨w, here, some .openConnection⟩, ⟨w', here', some (e.driving c d)⟩]

end Effect

namespace Entry

variable (e : Effect ε α) (c : ContextId)

def code : Entry ε α → Code
  | .outcome k _ => e.outcomeOn c k
  | .result k _ => e.resultOn c k
  | .task d callback dropped _ =>
      .perform (.attempt (.perform (e.driving c d) .give)) fun r =>
        told callback dropped ((r.toCaught.map Reply.toExit).map (Outcome.map read read))
  | .apart l => .perform (.attempt (e.telling c)) (Hop.settling l)

def below : Entry ε α → List Frame
  | .outcome _ fs | .result _ fs | .task _ _ _ fs => fs
  | .apart _ => []

/-- What is done before the effect runs, and on which connection it does. -/
def Begins (before : Passage) (d : ConnectionId) : Entry ε α → Prop
  | .outcome _ _ | .result _ _ => e.Opens c before d
  | .task d' _ _ _ => d = d' ∧ ∃ w here w' here', before =
      [⟨w, here, some (.attempt (.perform (e.driving c d) .give))⟩,
        ⟨w', here', some (e.driving c d)⟩]
  | .apart _ => ∃ w here opens, before = ⟨w, here, some (.attempt (e.telling c))⟩ :: opens ∧
      e.Opens c opens d

/-- What follows the run. -/
def rest : Entry ε α → Except String (Outcome ε α) → Activity
  | .outcome k fs, x => resumed k fs x
  | .result k fs, .ok (.completed a) => ⟨.code (k (.ok a)), fs⟩
  | .result k fs, .ok (.errored error) => ⟨.code (k (.error error)), fs⟩
  | .result _ fs, .ok .canceled =>
      ⟨.unwinding "unsafe_run_sync: the computation was canceled", fs⟩
  | .result _ fs, .error message => ⟨.unwinding message, fs⟩
  | .task _ callback dropped fs, x => ⟨.code (told callback dropped x), fs⟩
  | .apart l, x => ⟨.code (Hop.settling l (.caught (handed x))), []⟩

end Entry

/-- In this course the effect is run once, on the context: with these moments, which end like this,
and what is left of the course comes after. -/
inductive Passes (e : Effect ε α) (c : ContextId) (E : Entry ε α) :
    Passage → ConnectionId → Passage → Except String (Outcome ε α) → Passage → Prop
  | mk {before t after : Passage} {d : ConnectionId} {x : Except String (Outcome ε α)}
      (hb : E.Begins e c before d) (h : e.Comes ⟨c, d⟩ t x) :
      Passes e c E (before ++ t ++ after) d t x after

variable {e : Effect ε α} {c : ContextId} {s : Passage} {r : Except String Reply} {fs : List Frame}

/-- There is such a run, on threads of a world. -/
def Entry.Happens (e : Effect ε α) (c : ContextId) (E : Entry ε α) (s : Passage)
    (r : Except String Reply) : Prop :=
  ∃ w here t, Hop.Runs (.start w here (E.code e c)) s t ∧ t.activity = atEnd r ∧ t.waiting = []

/-- What can be seen of the effect's possible runs on the context does not depend on when its
threads take their turns, nor on which threads they are, and neither does how they end. -/
structure Effect.Steady {ν : Type} (e : Effect ε α) (c : ContextId)
    (possible : ConnectionId → Passage → Prop) (view : Passage → ν) : Prop where
  alike : ∀ {d d' : ConnectionId} {t t' : Passage} {x x' : Except String (Outcome ε α)},
    possible d t → possible d' t' → e.Comes ⟨c, d⟩ t x → e.Comes ⟨c, d'⟩ t' x' →
      view t = view t' ∧ x = x'

/-- Every context that a machine is to go to is open to it. -/
def Unrefused (t : Passage) : Prop := ∀ z ∈ t, ∀ c message, ¬z.world.Refuses z.place c message

theorem log_comes {v : Value} {run : Run} {t : Passage} {x : Except String (Outcome ε Unit)}
    (hun : Unrefused t) (h : (Effect.delay (Routine.log v) : Effect ε Unit).Comes run t x) :
    t.filterMap Moment.op = [.log v] ∧ x = .ok (.completed ()) := by
  obtain ⟨y, hy, rfl⟩ := h
  obtain ⟨w₁, here₁, t, rfl, h | ⟨message, hr⟩⟩ := machine_proceeds hy.ends
  swap
  · exact absurd hr (hun _ (List.mem_cons_self ..) _ _)
  obtain ⟨w₂, here₂, t, rfl, -, h⟩ := perform_proceeds_iff.1 h
  have hbuild : Quiet ⟨.code (.build (.pure (write ()))), [.node [] run]⟩
      ⟨.drive (.focus (.pure (write ())) []) run, []⟩ :=
    ⟨fun _ _ => rfl, fun _ _ => rfl, fun _ _ => trivial⟩
  obtain ⟨w₃, here₃, t, rfl, h | ⟨message, hr⟩⟩ := machine_proceeds (hbuild.proceeds_iff.1 h)
  swap
  · exact absurd hr (hun ⟨w₃, here₃, none⟩ (by simp) _ _)
  obtain ⟨rfl, hresult⟩ :=
    atEnd_proceeds ((quiet_yielding (.ok (.completed (write ()), run))).proceeds_iff.1 h)
  obtain message | ⟨exit, run'⟩ := y
  · cases hresult
  · obtain ⟨rfl, -⟩ := Reply.ended.inj (Except.ok.inj hresult)
    exact ⟨rfl, rfl⟩

/-- An effect that does nothing but log is steady. -/
theorem log_steady (v : Value) (c : ContextId) :
    (Effect.delay (Routine.log v) : Effect ε Unit).Steady c (fun _ => Unrefused)
      fun t => t.filterMap Moment.op :=
  ⟨fun hd hd' h h' => ⟨(log_comes hd h).1.trans (log_comes hd' h').1.symm,
    (log_comes hd h).2.trans (log_comes hd' h').2.symm⟩⟩

theorem carried {w : World} {here : Place} {code : Code} {t : Hop.Team}
    (h : Hop.Runs (.start w here code) s t) (ht : t.activity = atEnd r) (hw : t.waiting = []) :
    Proceeds (.start code) s (atEnd r) := by
  obtain ⟨b, hb, hfollows⟩ := (Hop.Follows.start w here code).runs h
  rwa [hfollows.eq_atEnd ht hw] at hb

/-- What the ways to run an effect on a context have in common. -/
structure Alike (e : Effect ε α) (c : ContextId) : Prop where
  /-- Each of them runs the effect once, and then goes on with how that has ended. -/
  runs : ∀ (E : Entry ε α) {s : Passage} {r : Except String Reply},
    Proceeds ⟨.code (E.code e c), E.below⟩ s (atEnd r) ↔
      ∃ d t x after, Passes e c E s d t x after ∧ Proceeds (E.rest x) after (atEnd r)
  /-- One that is not waited for dispatches one task, and answers with its token. -/
  async : ∀ (callback : Outcome ε α → Routine Unit) (dropped : Routine Unit) (k : Code → Code),
    e.runAsync c callback dropped k =
      .perform .openConnection fun r =>
        .perform (.context c (.execute ((Entry.task r.toId callback dropped []).code e c)))
          fun _ => k (Routine.task (ConnectionId.cancel r.toId))
  /-- One on a thread of its own is waited for. -/
  apart : ∀ k : Outcome ε α → Code, e.outcomeApart c k =
    .perform .openLatch fun r =>
      .perform (.fork ((Entry.apart r.toId : Entry ε α).code e c)) fun _ =>
        .perform (.await r.toId) fun r => received k r.toCaught
  received : ∀ {k : Outcome ε α → Code} {x : Except String (Outcome ε α)} {fs : List Frame}
    {s : Passage} {r : Except String Reply},
    Proceeds ⟨.code (received k (handed x)), fs⟩ s (atEnd r) ↔
      Proceeds (resumed k fs x) s (atEnd r)
  /-- Through all the hops there are no other runs than on one thread. -/
  carried : ∀ {w : World} {here : Place} {code : Code} {s : Passage} {t : Hop.Team}
    {r : Except String Reply}, Hop.Runs (.start w here code) s t → t.activity = atEnd r →
      t.waiting = [] → Proceeds (.start code) s (atEnd r)
  /-- And no hop gets stuck. -/
  arrives : ∀ {w : World} {here : Place} {code : Code} {s : Passage} {t : Hop.Team},
    Hop.Runs (.start w here code) s t → ∃ b, Proceeds (.start code) s b ∧
      ((∀ m run, b.control = .drive m run → t.world.Accepts run.context) → Hop.Arrives t b)
  /-- If the effect is steady, then any two of them show the same and end alike. -/
  agree : ∀ {ν : Type} {possible : ConnectionId → Passage → Prop} {view : Passage → ν},
    e.Steady c possible view → ∀ {E E' : Entry ε α} {s s' : Passage} {r r' : Except String Reply},
      E.below = [] → E'.below = [] → E.Happens e c s r → E'.Happens e c s' r' →
      ∃ d t x after d' t' x' after',
        Passes e c E s d t x after ∧ Proceeds (E.rest x) after (atEnd r) ∧
        Passes e c E' s' d' t' x' after' ∧ Proceeds (E'.rest x') after' (atEnd r') ∧
        (possible d t → possible d' t' → view t = view t' ∧ x = x')

end Effects
