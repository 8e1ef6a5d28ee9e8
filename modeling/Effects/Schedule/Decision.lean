import Effects.Datum

/-!
What a schedule answers to an input: to go on from a state after a delay, or to stop.
-/

namespace Effects

inductive Decision (σ : Type) where
  | again (state : σ) (delay : Duration)
  | done
  deriving DecidableEq

namespace Decision

variable {σ τ : Type}

def now (state : σ) : Decision σ := .again state .zero

def continues : Decision σ → Bool
  | .again _ _ => true
  | .done => false

def delay? : Decision σ → Option Duration
  | .again _ delay => some delay
  | .done => none

def mapState (f : σ → τ) : Decision σ → Decision τ
  | .again state delay => .again (f state) delay
  | .done => .done

def mapDelay (f : Duration → Duration) : Decision σ → Decision σ
  | .again state delay => .again state (f delay)
  | .done => .done

/-- Goes on while both do, after the longer delay. -/
def both : Decision σ → Decision τ → Decision (σ × τ)
  | .again s d, .again t e => .again (s, t) (max d e)
  | _, _ => .done

/-- Goes on while either does, after the shorter delay of those that do; who stops keeps the state. -/
def either (kept : σ × τ) : Decision σ → Decision τ → Decision (σ × τ)
  | .done, .done => .done
  | .again s d, .again t e => .again (s, t) (min d e)
  | .again s d, .done => .again (s, kept.2) d
  | .done, .again t e => .again (kept.1, t) e

@[simp] theorem delay?_mapState (f : σ → τ) (d : Decision σ) :
    (d.mapState f).delay? = d.delay? := by
  cases d <;> rfl

@[simp] theorem delay?_both (a : Decision σ) (b : Decision τ) :
    (a.both b).delay? = a.delay?.bind fun d => b.delay?.map fun e => max d e := by
  cases a <;> cases b <;> rfl

end Decision

instance {σ : Type} [Datum σ] : Datum (Decision σ) where
  write
    | .again state delay => .obj [("continue", write state), ("delay", write delay)]
    | .done => .str "done"
  read v :=
    match v.field? "continue" with
    | some state => .again (read state) (read (v.field "delay"))
    | none => .done
  read_write d := by cases d <;> simp [Value.field, Value.field?]

end Effects
