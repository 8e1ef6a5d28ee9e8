import Effects.Proofs.Join.Course
import Effects.Proofs.Service.Account

/-!
The account of a fiber: the calls that are due for what has been done to it are made once each.
-/

namespace Effects.Joining

open Service

variable {f : FiberId} {h : History} {s : Fiber.State} {d d' : Deed} {phase : Phase}
  {next : Phase ⊕ Answer}

abbrev FiberFloor := Floor Fiber.State Note Deed Phase Answer

structure Legal (h : History) (s : Fiber.State) : Prop where
  course : ∃ st, Course h st ∧ s.slot = st.slot
  gate : s.gate = .opened ↔ .opened ∈ h
  passed : .passed .opened ∈ h → .opened ∈ h

/-- Who leaves has joined. -/
def Known (h : History) : Deed → Prop
  | .detach l => l ∈ h.flatMap Note.callbacks
  | _ => True

def Sound (h : History) : Deed → Phase ⊕ Answer → Prop
  | .listen l, .inl .first => l ∉ h.flatMap Note.callbacks
  | .listen l, .inl (.telling _ _) | .listen l, .inr _ => l ∈ h.flatMap Note.callbacks
  | .complete exit, .inl (.telling l x) => .completed exit (some l) ∈ h ∧ x = told exit
  | .complete exit, .inl .opening => ∃ joiner, .completed exit joiner ∈ h
  | .await, .inr _ => ∃ gate, .passed gate ∈ h
  | .listen _, .inl .opening | .detach _, .inl .opening => False
  | .await, .inl .opening | .await, .inl (.telling _ _) => False
  | _, _ => True

def pending : Deed → Phase ⊕ Answer → List Telling
  | _, .inl (.telling l x) => [(l, x)]
  | _, _ => []

def Deed.callback? : Deed → Option LatchId
  | .listen l => some l
  | _ => none

def account (f : FiberId) : Account (procedure f) where
  Only := Only
  Legal := Legal
  callbacks h := h.flatMap Note.callbacks
  dues h := h.flatMap Note.dues
  Known := Known
  Sound h _ := Sound h
  pending := pending
  callback? := Deed.callback?
  Token d := ∃ l, d = .detach l

theorem mem_concat {β : Type} {φ : Note → List β} {x : β} {more : History}
    (hx : x ∈ h.flatMap φ) : x ∈ (h ++ more).flatMap φ := by
  rw [List.flatMap_append]
  exact List.mem_append_left _ hx

theorem Known.mono {more : History} (hk : Known h d) : Known (h ++ more) d := by
  cases d with
  | detach l => exact mem_concat hk
  | _ => trivial

theorem Sound.mono {more : History} (hs : Sound h d next)
    (hnew : ∀ l, d = .listen l → next = .inl .first → l ∉ more.flatMap Note.callbacks) :
    Sound (h ++ more) d next := by
  cases d with
  | listen l =>
    obtain phase | a := next
    · cases phase with
      | first =>
        show l ∉ _
        rw [List.flatMap_append, List.mem_append, not_or]
        exact ⟨hs, hnew l rfl rfl⟩
      | telling => exact mem_concat hs
      | opening => exact hs.elim
    · exact mem_concat hs
  | complete exit =>
    obtain phase | a := next
    · cases phase with
      | first => trivial
      | telling l x => exact ⟨List.mem_append_left _ hs.1, hs.2⟩
      | opening => exact hs.imp fun _ => List.mem_append_left _
    · trivial
  | await =>
    obtain phase | a := next
    · cases phase with
      | first => trivial
      | telling | opening => exact hs.elim
    · exact hs.imp fun _ => List.mem_append_left _
  | detach l =>
    obtain phase | a := next
    · cases phase with
      | first | telling => trivial
      | opening => exact hs.elim
    · trivial

/-- What the first step of a request comes to. -/
inductive First (s : Fiber.State) : Deed → History → Phase ⊕ Answer → Prop
  | joined {l : LatchId} {joiner : Option LatchId} (hs : s.slot = .running joiner) :
      First s (.listen l) [.joined l] (.inr .waiting)
  | heard {l : LatchId} {exit : Delivery} (hs : s.slot = .finished (some exit)) :
      First s (.listen l) [.heard l exit] (.inl (.telling l (told exit)))
  | missed {l : LatchId} (hs : s.slot = .finished none) :
      First s (.listen l) [.missed l] (.inl (.telling l interrupted))
  | left {l joiner : LatchId} (hs : s.slot = .running (some joiner)) :
      First s (.detach l) [.left joiner] (.inl (.telling l interrupted))
  | late {l : LatchId} : First s (.detach l) [] (.inr .done)
  | passed : First s .await [.passed s.gate] (.inr .done)
  | handed {exit : Delivery} {joiner : LatchId} :
      First s (.complete exit) [.completed exit (some joiner)] (.inl (.telling joiner (told exit)))
  | kept {exit : Delivery} : First s (.complete exit) [.completed exit none] (.inl .opening)

theorem first_cases (f : FiberId) (d : Deed) (s : Fiber.State) :
    First s d ((procedure f).note d .first s) ((procedure f).step d .first s).2.1 := by
  obtain ⟨connection, slot, gate⟩ := s
  cases d with
  | listen l =>
    cases slot with
    | running joiner => exact .joined rfl
    | finished exit =>
      cases exit with
      | some exit => exact .heard rfl
      | none => exact .missed rfl
  | detach l =>
    cases slot with
    | running joiner =>
      cases joiner with
      | some joiner => exact .left rfl
      | none => exact .late
    | finished exit => exact .late
  | await => exact .passed
  | complete exit =>
    cases slot with
    | running joiner =>
      cases joiner with
      | some joiner => exact .handed
      | none => exact .kept
    | finished exit' => exact .kept

theorem mem_callbacks_listen (f : FiberId) (l : LatchId) (s : Fiber.State) :
    l ∈ ((procedure f).note (.listen l) .first s).flatMap Note.callbacks := by
  have hfirst := first_cases f (.listen l) s
  generalize (procedure f).note (.listen l) .first s = notes,
    ((procedure f).step (.listen l) .first s).2.1 = next at hfirst ⊢
  cases hfirst <;> exact List.mem_singleton_self l

theorem mem_notes_first {n : Note} (hn : n ∈ d.op.notes s) :
    n ≠ .opened ∧ ∀ gate, n = .passed gate → gate = s.gate := by
  have hn : n ∈ (procedure 0).note d .first s := hn
  have hfirst := first_cases 0 d s
  generalize (procedure 0).note d .first s = notes,
    ((procedure 0).step d .first s).2.1 = next at hfirst hn
  cases hfirst with
  | late => cases hn
  | _ =>
    obtain rfl := List.mem_singleton.1 hn
    simp

theorem Legal.first (hl : Legal h s) (ho : Only (h ++ d.op.notes s)) :
    Legal (h ++ d.op.notes s) (d.op.after s) where
  course := by
    obtain ⟨st, hc, hst⟩ := hl.course
    cases d with
    | listen l => exact hc.listens hst ho
    | detach l => exact hc.detaches hst
    | complete exit => exact hc.completes hst ho
    | await => exact ⟨st, hc.then (.passed st s.gate), hst⟩
  gate := by
    have hgate : (d.op.after s).gate = s.gate := by cases d <;> rfl
    have hno : .opened ∉ d.op.notes s := fun hm => (mem_notes_first hm).1 rfl
    rw [hgate, hl.gate, List.mem_append, or_iff_left hno]
  passed := by
    intro hp
    refine List.mem_append_left _ ?_
    obtain hp | hp := List.mem_append.1 hp
    · exact hl.passed hp
    · exact hl.gate.1 ((mem_notes_first hp).2 _ rfl).symm

theorem Legal.acts (hl : Legal h s) (ho : Only (h ++ (procedure f).note d phase s)) :
    Legal (h ++ (procedure f).note d phase s) ((procedure f).step d phase s).1 := by
  cases phase with
  | telling l x =>
    simp only [procedure, List.append_nil]
    exact hl
  | first => exact hl.first ho
  | opening =>
    obtain ⟨st, hc, hst⟩ := hl.course
    have hm : .opened ∈ h ++ [.opened] := List.mem_append_right _ (List.mem_singleton_self _)
    exact ⟨⟨st, hc.then (.opened st), hst⟩, ⟨fun _ => hm, fun _ => rfl⟩, fun _ => hm⟩

theorem Sound.acts (hs : Sound h d (.inl phase)) :
    Sound (h ++ (procedure f).note d phase s) d ((procedure f).step d phase s).2.1 := by
  cases phase with
  | telling l x =>
    simp only [procedure, List.append_nil]
    cases d with
    | listen l => exact hs
    | detach l => trivial
    | await => exact hs.elim
    | complete exit => exact ⟨some l, hs.1⟩
  | opening =>
    cases d with
    | listen | detach | await => exact hs.elim
    | complete => trivial
  | first =>
    cases d with
    | listen l =>
      have hl : l ∈ (h ++ (procedure f).note (.listen l) .first s).flatMap Note.callbacks := by
        rw [List.flatMap_append]
        exact List.mem_append_right _ (mem_callbacks_listen f l s)
      have hfirst := first_cases f (.listen l) s
      generalize (procedure f).note (.listen l) .first s = notes,
        ((procedure f).step (.listen l) .first s).2.1 = next at hfirst hl ⊢
      cases hfirst <;> exact hl
    | detach l =>
      have hfirst := first_cases f (.detach l) s
      generalize (procedure f).note (.detach l) .first s = notes,
        ((procedure f).step (.detach l) .first s).2.1 = next at hfirst ⊢
      cases hfirst <;> trivial
    | await => exact ⟨_, List.mem_append_right _ (List.mem_singleton_self _)⟩
    | complete exit =>
      have hfirst := first_cases f (.complete exit) s
      generalize (procedure f).note (.complete exit) .first s = notes,
        ((procedure f).step (.complete exit) .first s).2.1 = next at hfirst ⊢
      cases hfirst with
      | handed => exact ⟨List.mem_append_right _ (List.mem_singleton_self _), rfl⟩
      | kept => exact ⟨_, List.mem_append_right _ (List.mem_singleton_self _)⟩

theorem calls (hl : Legal h s) (hk : Known h d) :
    ((procedure f).step d phase s).2.2.toList ++ pending d ((procedure f).step d phase s).2.1 =
      pending d (.inl phase) ++ ((procedure f).note d phase s).flatMap Note.dues := by
  cases phase with
  | telling l x => cases d <;> rfl
  | opening => cases d <;> rfl
  | first =>
    show pending d ((procedure f).step d .first s).2.1 = ((procedure f).note d .first s).flatMap Note.dues
    have hfirst := first_cases f d s
    generalize (procedure f).note d .first s = notes,
      ((procedure f).step d .first s).2.1 = next at hfirst ⊢
    cases hfirst with
    | left hs =>
      obtain ⟨st, hc, hst⟩ := hl.course
      obtain rfl := hc.joiner_eq (hst.symm.trans hs) hk
      rfl
    | _ => rfl

/-- Only who listens is accepted. -/
theorem callbacks_note {l : LatchId}
    (hm : l ∈ ((procedure f).note d phase s).flatMap Note.callbacks) : d = .listen l := by
  cases phase with
  | telling | opening => simp [procedure, Note.callbacks] at hm
  | first =>
    have hfirst := first_cases f d s
    generalize (procedure f).note d .first s = notes,
      ((procedure f).step d .first s).2.1 = next at hfirst hm
    cases hfirst with
    | joined | heard | missed => rw [List.mem_singleton.1 hm]
    | _ => cases hm

theorem keeps (f : FiberId) : (account f).Keeps where
  only := Only.of_append
  acts := by
    intro h s d phase hl hk hs ho
    refine ⟨hl.acts ho, hs.acts, ⟨_, List.flatMap_append, calls hl hk⟩, ?_, Known.mono, ?_⟩
    · intro l hm
      have hm : l ∈ (h ++ (procedure f).note d phase s).flatMap Note.callbacks := hm
      rw [List.flatMap_append, List.mem_append] at hm
      refine hm.imp id fun hm => ?_
      rw [callbacks_note hm]
      rfl
    · intro d' next hs' hne
      refine hs'.mono fun l hd _ hm => hne l (by rw [hd]; rfl) ?_
      rw [callbacks_note hm]
      rfl
  now := by
    intro g d k h s hg
    cases g <;> cases hg <;> exact ⟨⟨trivial, trivial, rfl⟩, rfl, by simp [account]⟩
  wait := by
    intro g r l h s hg hl
    cases g <;> cases hg
    exact ⟨⟨trivial, hl, rfl⟩, rfl, by simp [account]⟩
  token := by
    rintro h d s ⟨l, rfl⟩ hk
    exact ⟨⟨hk, trivial, rfl⟩, rfl⟩
  undo := by
    intro h s d a d' hs hu
    cases d with
    | listen l =>
      cases a with
      | waiting =>
        obtain rfl := Option.some.inj hu
        exact ⟨⟨l, rfl⟩, hs⟩
      | done => cases hu
    | _ => cases a <;> cases hu
  answered _ _ := rfl
  dues_callbacks := by
    intro h s call hl hd
    obtain ⟨st, hc, -⟩ := hl.course
    exact hc.dues_callbacks hd
  dues_nodup := by
    intro h s hl
    obtain ⟨st, hc, -⟩ := hl.course
    exact hc.dues_nodup
  moves := by
    intro d phase l hop
    cases phase <;> cases hop

end Effects.Joining
