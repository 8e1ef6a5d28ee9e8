import Effects.Proofs.Promise.Steps
import Effects.Proofs.Service.Account

/-!
What holds of a promise and of all requests that have been made of it.
-/

namespace Effects.Promise

open Service History

variable {ε α : Type} [Datum ε] [Datum α] {p : Promise ε α} {h new : History} {s : Promises}
  {d d' : Deed} {stage : Stage} {next : Stage ⊕ Reported}
  {x : Promises × (Stage ⊕ Reported) × Told}

theorem Known.mono (hk : Known h d) : Known (h ++ new) d := by
  cases d with
  | leave id l =>
    have hm : ⟨id, l⟩ ∈ h.joined ++ History.joined new := List.mem_append_left _ hk
    rwa [← joined_append] at hm
  | _ => trivial

theorem Advance.resolutions (ha : Advance h s d stage x new) {r : Resolution}
    (hr : h.resolutions = [r]) : (h ++ new).resolutions = [r] := by
  obtain rfl | ⟨n, rfl, hn⟩ := ha.notes
  · rwa [List.append_nil]
  · obtain ⟨l, rfl, -⟩ := hn.of_resolved hr
    rw [resolutions_append, hr]
    rfl

theorem Reports.mono {a : Reported} (hr : Reports h d a) (ha : Advance h s d' stage x new) :
    Reports (h ++ new) d a := by
  cases hr with
  | won hr => exact .won (ha.resolutions hr)
  | lost hr => exact .lost (ha.resolutions hr)
  | queued hj => exact .queued (by rw [joined_append]; exact List.mem_append_left _ hj)
  | served hl => exact .served (by rw [late_append]; exact List.mem_append_left _ hl)
  | nothing => exact .nothing
  | found hr => exact .found (ha.resolutions hr)
  | removed hm => exact .removed (by rw [removed_append]; exact List.mem_append_left _ hm)
  | missed => exact .missed

theorem Plan.resolutions {n : Nat} {state : State Value Value LatchId}
    {calls : List (Call Value Value LatchId)} {a : Reported} (hp : Plan h n d state calls a) :
    h.resolutions = [] := by
  cases hp with
  | resolve hr => exact hr
  | get hr => exact hr
  | leave hr => exact hr

theorem Plan.mono {n n' : Nat} (hn : n ≤ n') {state : State Value Value LatchId}
    {calls : List (Call Value Value LatchId)} {a : Reported} (hp : Plan h n d state calls a) :
    Plan h n' d state calls a := by
  cases hp with
  | resolve hr => exact .resolve hr
  | get hr hid hlt => exact .get hr hid (Nat.lt_of_lt_of_le hlt hn)
  | leave hr hw => exact .leave hr hw

/-- A step of one request is nothing to another. -/
theorem Sound.others (hs : Sound h s d next) (ha : Advance h s d' stage x new)
    (hne : ∀ l, d = .get l → d' ≠ .get l) : Sound (h ++ new) x.1 d next := by
  have hfresh : Fresh h d → Fresh (h ++ new) d := by
    intro hf
    cases d with
    | get l =>
      by_contra hn
      exact hne l rfl (ha.own l hf hn)
    | _ => trivial
  cases next with
  | inr a => exact Reports.mono hs ha
  | inl stage' =>
    cases stage' with
    | waking l a =>
      obtain ⟨ha, id, rfl, hm⟩ := hs
      refine ⟨ha, id, rfl, ?_⟩
      rw [removed_append]
      exact List.mem_append_left _ hm
    | «at» phase =>
      cases phase with
      | reading => exact hfresh hs
      | notifying calls a => exact Reports.mono hs ha
      | done a => exact hs.elim
      | writing seen state calls a =>
        obtain ⟨hf, hle, hplan⟩ := hs
        refine ⟨hfresh hf, ?_⟩
        obtain ⟨hcell, hnew⟩ | hversion := ha.cell
        · rw [hcell]
          refine ⟨hle, fun hv => ?_⟩
          obtain rfl | hres := hnew
          · rw [List.append_nil]
            exact (hplan hv).mono ha.next
          · exact absurd (hplan hv).resolutions hres
        · rw [hversion]
          exact ⟨Nat.le_succ_of_le hle, fun hv => absurd hv (by omega)⟩

abbrev PromiseFloor := Floor Promises Note Deed Stage Reported

theorem dues_append (ha : Advance h s d stage x new) :
    dues (h ++ new) = dues h ++ new.flatMap (due h) := by
  obtain rfl | ⟨n, rfl, hn⟩ := ha.notes
  · simp
  · rw [dues_concat, List.flatMap_singleton]

/-- The getter that a request is for. -/
def Deed.callback? : Deed → Option LatchId
  | .get l => some l
  | _ => none

theorem Deed.callback?_eq_some {l : LatchId} : d.callback? = some l ↔ d = .get l := by
  cases d <;> simp [Deed.callback?]

def account (p : Promise ε α) : Account (procedure p) where
  Only _ := True
  Legal h s := Legal h s.nextId ∧ s.state = History.state h
  callbacks := callbacks
  dues := dues
  Known := Known
  Sound := Sound
  pending := pending
  callback? := Deed.callback?
  Token d := ∃ id l, d = .leave id l

theorem keeps (p : Promise ε α) : (account p).Keeps where
  only := fun _ => trivial
  acts := by
    rintro h s d stage ⟨hh, hs⟩ hk hsound -
    have ha := step_advances (p := p) hh hs hk hsound
    refine ⟨⟨?_, ha.state⟩, ha.sound, ?_, ?_, Known.mono, ?_⟩
    · obtain hnew | ⟨n, hnew, hn⟩ := ha.notes
      · rw [hnew, List.append_nil]
        exact hh.mono ha.next
      · rw [hnew]
        exact hh.comes ha.next hn
    · exact ⟨_, dues_append ha, ha.calls⟩
    · intro l hl
      by_cases hold : l ∈ callbacks h
      · exact .inl hold
      · exact .inr (Deed.callback?_eq_some.2 (ha.own l hold fun hn => hn hl))
    · intro d' next hs' hne
      refine Sound.others hs' ha fun l hl hl' => ?_
      exact hne l (Deed.callback?_eq_some.2 hl) (Deed.callback?_eq_some.2 hl')
  now := by
    intro g d k h s hg
    cases g <;> cases hg <;> exact ⟨⟨trivial, trivial, rfl⟩, rfl, by simp [account]⟩
  wait := by
    intro g r l h s hg hl
    cases g <;> cases hg
    exact ⟨⟨trivial, hl, rfl⟩, rfl, by simp [account]⟩
  token := by
    rintro h d s ⟨id, l, rfl⟩ hk
    exact ⟨⟨hk, trivial, rfl⟩, rfl⟩
  undo := by
    intro h s d a d' hs hu
    have hr : Reports h d a := hs
    cases hr with
    | @queued id l hj =>
      simp only [procedure, Store.procedure, Promise.undo] at hu
      split at hu
      · obtain rfl := Option.some.inj hu
        exact ⟨⟨id, l, rfl⟩, hj⟩
      · cases hu
    | _ => cases hu
  answered _ _ := rfl
  dues_callbacks hl hc := hl.1.dues_callbacks hc
  dues_nodup hl := hl.1.dues_nodup
  moves := by
    intro d stage l h
    cases stage <;> cases h

/-- What is kept whatever the threads do. -/
abbrev Inv (p : Promise ε α) (f : PromiseFloor) : Prop := (account p).Inv f

theorem Inv.advance {f : PromiseFloor} {i : Nat} (hf : Inv p f)
    (h : f.agents[i]? = some (.at d (.inl stage))) :
    Advance (notes f.seen) f.state d stage ((procedure p).step d stage f.state)
      ((procedure p).note d stage f.state) := by
  obtain ⟨hk, hs⟩ := hf.agents h
  exact step_advances hf.legal.1 hf.legal.2 hk hs

end Effects.Promise
