import Effects.Schedule

/-!
Adjusting one schedule: its outputs, inputs, delays and where it stops. The states are those of the
schedule that is adjusted, except that folding keeps what was folded so far beside them.
-/

namespace Effects.Schedule

variable {ε ι σ ο : Type} [Datum ε] [Datum σ]

def map {ρ : Type} (s : Schedule ε ι σ ο) (f : ο → ρ) : Schedule ε ι σ ρ where
  initial := s.initial
  extract input state := f (s.extract input state)
  update := s.update

def contramap {κ : Type} (s : Schedule ε ι σ ο) (f : κ → ι) : Schedule ε κ σ ο where
  initial := s.initial
  extract input := s.extract (f input)
  update input := s.update (f input)

/-- Goes on once. -/
def once : Schedule ε ι Nat Unit := (recurs 1).map fun _ => ()

/-- Changes every decision, seeing the input. -/
def reshape (s : Schedule ε ι σ ο) (f : ι → Decision σ → Decision σ) : Schedule ε ι σ ο where
  initial := s.initial
  extract := s.extract
  update input state := (s.update input state).map (f input)

def withMaxDelay (s : Schedule ε ι σ ο) (limit : Duration) : Schedule ε ι σ ο :=
  s.reshape fun _ d => d.mapDelay (min · limit)

/-- Adds to every delay what `f` makes of the output after the update. -/
def addDelay (s : Schedule ε ι σ ο) (f : ο → Duration) : Schedule ε ι σ ο :=
  s.reshape fun input d =>
    match d with
    | .again state delay => .again state (delay + f (s.extract input state))
    | .done => .done

/-- Stops as soon as the output after an update satisfies `p`. -/
def untilOutput (s : Schedule ε ι σ ο) (p : ο → Bool) : Schedule ε ι σ ο :=
  s.reshape fun input d =>
    match d with
    | .again state delay => if p (s.extract input state) then .done else .again state delay
    | .done => .done

def whileOutput (s : Schedule ε ι σ ο) (p : ο → Bool) : Schedule ε ι σ ο :=
  s.untilOutput fun output => !p output

/-- Stops as soon as an input satisfies `p`. -/
def untilInput (s : Schedule ε ι σ ο) (p : ι → Bool) : Schedule ε ι σ ο where
  initial := s.initial
  extract := s.extract
  update input state := if p input then .pure .done else s.update input state

def whileInput (s : Schedule ε ι σ ο) (p : ι → Bool) : Schedule ε ι σ ο :=
  s.untilInput fun input => !p input

/-- Folds the outputs after each update. -/
def fold {ζ : Type} [Datum ζ] (s : Schedule ε ι σ ο) (zero : ζ) (f : ζ → ο → ζ) :
    Schedule ε ι (σ × ζ) ζ where
  initial := s.initial.map fun state => (state, zero)
  extract _ p := p.2
  update input p :=
    (s.update input p.1).map fun d => d.mapState fun state => (state, f p.2 (s.extract input state))

/-- Collects the outputs after each update. -/
def collectAll [Datum ο] (s : Schedule ε ι σ ο) : Schedule ε ι (σ × List ο) (List ο) :=
  s.fold [] fun outputs output => outputs ++ [output]

/-- The larger of two numbers, or the one of them that is a number. -/
def larger (a b : Float) : Float := if a.isNaN then b else if a < b then b else a

/-- A factor between the bounds, which have to be a finite distance apart. -/
def drawFactor (low high : Float) : Routine Float :=
  if (high - low).isFinite then Routine.factorBetween low high
  else Routine.panic "called \x60Result::unwrap()\x60 on an \x60Err\x60 value: NonFinite"

/-- Stretches every delay by a random factor between the two, none of them below zero. -/
def jitteredBetween (s : Schedule ε ι σ ο) (a b : Float) : Schedule ε ι σ ο :=
  let low := larger (if a ≤ b then a else b) 0
  let high := larger (if a ≤ b then b else a) low
  { s with
    update := fun input state =>
      (s.update input state).mapRunning fun d =>
        match d with
        | .again state delay => do return .again state (delay.stretch (← drawFactor low high))
        | .done => return .done }

def jittered (s : Schedule ε ι σ ο) : Schedule ε ι σ ο := s.jitteredBetween 0 1

end Effects.Schedule
