import Effects.Proofs.Yield.Values

/-!
Effects that go on with a closure which does more than compute. To map by such a closure is to go on
with an effect that runs it.
-/

namespace Effects

open Activity

namespace Activity

theorem silent_panic (message : String) (fs : List Frame) :
    Silent ⟨.code (.panic message), fs⟩ ⟨.unwinding message, fs⟩ where
  performs _ _ := rfl
  act _ _ _ := rfl
  able := ⟨.start, ⟨"", none⟩, trivial⟩
  not_yielding x := by cases x <;> simp [yielding]

theorem silent_unwinding (message : String) (run : Run) :
    Silent ⟨.unwinding message, [.node [] run]⟩ (yielding (.error message)) where
  performs _ _ := rfl
  act _ _ _ := rfl
  able := ⟨.start, ⟨"", none⟩, trivial⟩
  not_yielding x := by cases x <;> simp [yielding]

end Activity

namespace Node

variable {run : Run} {t : Trace} {x : Except String (Exit × Run)} {inner : Node}

/-- A closure that does nothing but build. -/
theorem suspend_build_yields (node : Node) :
    (Node.suspend (.build node)).Yields run t x ↔ node.Yields run t x := by
  constructor
  · rintro ⟨n, hn⟩
    obtain ⟨k, -, hk⟩ := (silent_suspend (.build node) [] run []).reaches_of hn
    obtain ⟨j, -, hj⟩ := (silent_build node [] run []).reaches_of hk
    exact ⟨j, hj⟩
  · rintro ⟨n, hn⟩
    have hbuilt := (silent_build node [] run []).reaches hn
    exact ⟨_, (silent_suspend (.build node) [] run []).reaches hbuilt⟩

/-- The computation has one value, which it finds where it is run and without an operation. -/
inductive Plain : Node → Value → Prop
  | pure (v : Value) : Plain (.pure v) v
  | map {node : Node} {f : Value → Node} {u v : Value} (h : Plain node u) (hf : Plain (f u) v) :
      Plain (.map node fun u => .build (f u)) v
  | flatMap {node : Node} {f : Value → Node} {u v : Value} (h : Plain node u)
      (hf : Plain (f u) v) : Plain (.flatMap node fun u => .build (f u)) v
  | suspend {node : Node} {v : Value} (h : Plain node v) : Plain (.suspend (.build node)) v

theorem plain_map {f : Value → Node} {v : Value} (h : Plain (.map inner fun u => .build (f u)) v) :
    ∃ u, Plain inner u ∧ Plain (f u) v := by
  generalize hc : (fun u => Code.build (f u)) = c at h
  cases h with
  | @map _ g u _ h hg =>
    have hu : f u = g u := Code.build.inj (congrFun hc u)
    exact ⟨u, h, hu ▸ hg⟩

theorem plain_flatMap {f : Value → Node} {v : Value}
    (h : Plain (.flatMap inner fun u => .build (f u)) v) : ∃ u, Plain inner u ∧ Plain (f u) v := by
  generalize hc : (fun u => Code.build (f u)) = c at h
  cases h with
  | @flatMap _ g u _ h hg =>
    have hu : f u = g u := Code.build.inj (congrFun hc u)
    exact ⟨u, h, hu ▸ hg⟩

theorem then_of_plain {f : Value → Node} {v : Value}
    (h : ∀ run t x, inner.Yields run t x ↔ t = [] ∧ x = .ok (.completed v, run)) :
    inner.Then (onValue f) run t x ↔ (f v).Yields run t x := by
  constructor
  · intro hthen
    cases hthen with
    | goes hinner hg hrest =>
      obtain ⟨rfl, hx⟩ := (h _ _ _).1 hinner
      cases hx
      obtain rfl := Option.some.inj hg
      exact hrest
    | passes hinner hg =>
      obtain ⟨-, hx⟩ := (h _ _ _).1 hinner
      cases hx
      cases hg
    | panics hinner => cases ((h _ _ _).1 hinner).2
  · exact fun hf => .goes ((h _ _ _).2 ⟨rfl, rfl⟩) rfl hf

theorem Plain.yields {node : Node} {v : Value} (h : Plain node v) (run : Run) (t : Trace)
    (x : Except String (Exit × Run)) :
    node.Yields run t x ↔ t = [] ∧ x = .ok (.completed v, run) := by
  induction h generalizing run t x with
  | pure v => exact pure_yields v
  | map _ _ ih ih' => rw [map_yields, then_of_plain ih, ih']
  | flatMap _ _ ih ih' => rw [flatMap_yields, then_of_plain ih, ih']
  | suspend _ ih => rw [suspend_build_yields, ih]

end Node

namespace Effect

variable {ε α β : Type} [Datum ε] [Datum α] [Datum β] {run : Run} {t : Trace}

/-- The effect is pure: it has one value, which it finds where it is run and without an operation. -/
def Plain (e : Effect ε α) (a : α) : Prop := ∃ v, e.node.Plain v ∧ read v = a

section Plain

variable {e : Effect ε α} {a : α}

omit [Datum ε] in
theorem plain_pure (a : α) : (pure a : Effect ε α).Plain a := ⟨_, .pure _, read_write a⟩

omit [Datum ε] in
theorem plain_flatMap_iff {f : α → Effect ε β} {b : β} :
    (e.flatMap f).Plain b ↔ ∃ a, e.Plain a ∧ (f a).Plain b := by
  constructor
  · rintro ⟨v, hv, rfl⟩
    obtain ⟨u, hu, hf⟩ := Node.plain_flatMap hv
    exact ⟨_, ⟨u, hu, rfl⟩, v, hf, rfl⟩
  · rintro ⟨_, ⟨u, hu, rfl⟩, v, hv, rfl⟩
    exact ⟨v, .flatMap (f := fun u => (f (read u)).node) hu hv, rfl⟩

omit [Datum ε] in
theorem plain_map_iff {f : α → β} {b : β} : (e.map f).Plain b ↔ ∃ a, e.Plain a ∧ f a = b := by
  constructor
  · rintro ⟨v, hv, rfl⟩
    obtain ⟨u, hu, hf⟩ := Node.plain_map hv
    cases hf
    exact ⟨_, ⟨u, hu, rfl⟩, (read_write _).symm⟩
  · rintro ⟨_, ⟨u, hu, rfl⟩, rfl⟩
    exact ⟨_, .map (f := fun u => (pure (f (read u)) : Effect ε β).node) hu (.pure _),
      read_write _⟩

omit [Datum ε] in
theorem plain_zip_iff {e' : Effect ε β} {p : α × β} :
    (e.zip e').Plain p ↔ e.Plain p.1 ∧ e'.Plain p.2 := by
  simp only [zip, plain_flatMap_iff, plain_map_iff]
  constructor
  · rintro ⟨a, ha, b, hb, rfl⟩
    exact ⟨ha, hb⟩
  · rintro ⟨ha, hb⟩
    exact ⟨_, ha, _, hb, rfl⟩

end Plain

end Effect
end Effects
