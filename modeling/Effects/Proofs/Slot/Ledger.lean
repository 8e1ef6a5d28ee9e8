import Effects.Proofs.Slot.Traffic
import Mathlib.Data.List.Nodup
import Mathlib.Data.List.Zip

/-!
What a write to the slot does to the lists of accepted puts and takes, and to the calls that go out.
-/

namespace Effects.MVar

variable {α : Type} {asks : List (Ask α)} {i : Nat} {ask : Ask α}

def takesCall (asks : List (Ask α)) (c : Call α Nat) : Bool := (asks[c.1]?).any Ask.takes

def putsCall (asks : List (Ask α)) (c : Call α Nat) : Bool := (asks[c.1]?).any Ask.puts

/-- The queue is the part of the lists that has not been matched. -/
def Contents.Agrees (asks : List (Ask α)) (s : Accepted α) : Contents α Nat → Prop
  | .empty readers takers =>
      s.puts.length ≤ s.takes.length ∧
      takers.map (·.callback) = s.takes.drop s.puts.length ∧
      (∀ r ∈ readers, asks[r.callback]? = some .read) ∧
      ∀ t ∈ takers, asks[t.callback]? = some .take
  | .full held putters =>
      s.takes.length < s.puts.length ∧
      (s.puts[s.takes.length]?).map (·.2) = some held ∧
      putters.map (fun x => (some x.2.callback, x.1)) = s.puts.drop (s.takes.length + 1) ∧
      ∀ x ∈ putters, asks[x.2.callback]? = some (.put x.1)

/-- Takes are matched with puts in the order in which both were accepted. -/
structure Ledger (asks : List (Ask α)) (contents : Contents α Nat) (s : Accepted α)
    (out : List (Call α Nat)) : Prop where
  takes_nodup : s.takes.Nodup
  puts_nodup : (s.puts.filterMap (·.1)).Nodup
  takes_ask : ∀ i ∈ s.takes, asks[i]? = some .take ∨ asks[i]? = some .tryTake
  puts_ask : ∀ i a, (some i, a) ∈ s.puts → asks[i]? = some (.put a) ∨ asks[i]? = some (.tryPut a)
  /-- Every matched take gets the value of its put, once, and no other take gets one. -/
  received : (out.filter (takesCall asks)).Perm s.given
  /-- Every put returns once its value is placed, and not before. -/
  returned : (out.filter (putsCall asks)).Perm s.rooms
  agrees : contents.Agrees asks s

/-- A write for an operation, and the calls that it leaves to be made. -/
inductive Writes (i : Nat) (c : Contents α Nat) :
    Ask α → Contents α Nat → List (Call α Nat) → Prop
  | offer {ask a next calls} (h : ask = .put a ∨ ask = .tryPut a)
      (ho : c.offer? a = some (next, calls)) : Writes i c ask next (calls ++ [(i, .room)])
  | poll {ask next calls held} (h : ask = .take ∨ ask = .tryTake)
      (hp : c.poll? = some (next, calls, held)) :
      Writes i c ask next (calls ++ [(i, .value held)])
  | joinPut {a id next} (h : c.withPutter? a ⟨id, i⟩ = some next) : Writes i c (.put a) next []
  | joinTake {id next} (h : c.withTaker? ⟨id, i⟩ = some next) : Writes i c .take next []
  | joinRead {id next} (h : c.withReader? ⟨id, i⟩ = some next) : Writes i c .read next []
  | leave {id} : Writes i c (.leave id) (c.without id) [(i, .room)]

section Lists

variable {β γ : Type} {l : List β} {r : List γ}

theorem zip_longer_right (h : l.length ≤ r.length) (x : List γ) : l.zip (r ++ x) = l.zip r := by
  have hmin : min l.length (r ++ x).length = min l.length r.length := by
    simp only [List.length_append]
    omega
  rw [List.zip_eq_zip_take_min, hmin, Nat.min_eq_left h, List.take_append_of_le_length h]
  conv_rhs => rw [List.zip_eq_zip_take_min, Nat.min_eq_left h]

theorem zip_longer_left (h : r.length ≤ l.length) (x : List β) : (l ++ x).zip r = l.zip r := by
  rw [← List.zip_swap, zip_longer_right h, List.zip_swap]

theorem zip_append_right (h : r.length ≤ l.length) (x : List γ) :
    l.zip (r ++ x) = l.zip r ++ (l.drop r.length).zip x := by
  have hlen : (l.take r.length).length = r.length := List.length_take_of_le h
  have hzip : l.zip r = (l.take r.length).zip r := by
    conv_lhs => rw [← List.take_append_drop r.length l]
    exact zip_longer_left (Nat.le_of_eq hlen.symm) _
  rw [hzip, ← List.zip_append hlen, List.take_append_drop]

theorem zip_append_left (h : l.length ≤ r.length) (x : List β) :
    (l ++ x).zip r = l.zip r ++ x.zip (r.drop l.length) := by
  rw [← List.zip_swap, zip_append_right h, List.map_append, List.zip_swap, List.zip_swap]

theorem filter_map_none {p : γ → Bool} {f : β → γ} (h : ∀ x ∈ l, p (f x) = false) :
    (l.map f).filter p = [] :=
  List.filter_eq_nil_iff.2 (by simpa using h)

theorem filter_map_all {p : γ → Bool} {f : β → γ} (h : ∀ x ∈ l, p (f x) = true) :
    (l.map f).filter p = l.map f :=
  List.filter_eq_self.2 (by simpa using h)

theorem contains_callbacks {callback : β → Nat} (number : β → Nat) (h : (l.map callback).Nodup)
    (id : Nat) {x : β} (hx : x ∈ l) :
    ((l.filter (number · == id)).map callback).contains (callback x) = (number x == id) := by
  rw [Bool.eq_iff_iff, List.contains_iff_mem]
  constructor
  · intro hm
    obtain ⟨y, hy, he⟩ := List.mem_map.1 hm
    obtain ⟨hyl, hid⟩ := List.mem_filter.1 hy
    rwa [← List.inj_on_of_nodup_map h hyl hx he]
  · intro hid
    exact List.mem_map_of_mem (List.mem_filter.2 ⟨hx, hid⟩)

end Lists

namespace Accepted

variable {s : Accepted α} {a : α} {who : Option Nat}

theorem given_offer (h : s.puts.length ≤ s.takes.length) (who : Option Nat) (a : α) :
    given ⟨s.puts ++ [(who, a)], s.takes⟩ =
      s.given ++ ((s.takes.drop s.puts.length).take 1).map fun t => (t, .value a) := by
  simp only [given, zip_append_right h, List.map_append]
  cases s.takes.drop s.puts.length <;> simp

theorem rooms_offer (h : s.puts.length ≤ s.takes.length) (i : Nat) (a : α) :
    rooms ⟨s.puts ++ [(some i, a)], s.takes⟩ = s.rooms ++ [(i, .room)] := by
  have h₁ : (s.puts ++ [(some i, a)]).length ≤ s.takes.length + 1 := by simpa using h
  have h₂ : s.puts.length ≤ s.takes.length + 1 := Nat.le_succ_of_le h
  simp [rooms, placed, List.take_of_length_le h₁, List.take_of_length_le h₂]

theorem given_poll (h : s.takes.length ≤ s.puts.length) (i : Nat) :
    given ⟨s.puts, s.takes ++ [i]⟩ =
      s.given ++ ((s.puts.drop s.takes.length).take 1).map fun p => (i, .value p.2) := by
  simp only [given, zip_append_left h, List.map_append]
  cases s.puts.drop s.takes.length <;> simp

theorem rooms_poll (i : Nat) :
    rooms ⟨s.puts, s.takes ++ [i]⟩ =
      s.rooms ++ ((s.puts.drop (s.takes.length + 1)).take 1).filterMap fun p =>
        p.1.map fun i => (i, .room) := by
  have hl : (s.takes ++ [i]).length + 1 = s.takes.length + 1 + 1 := by simp
  simp only [rooms, placed, hl, List.take_add (i := s.takes.length + 1), List.filterMap_append]

theorem given_joinPut (h : s.takes.length ≤ s.puts.length) (more : List (Option Nat × α)) :
    given ⟨s.puts ++ more, s.takes⟩ = s.given := by
  simp only [given, zip_longer_right h]

theorem rooms_joinPut (h : s.takes.length < s.puts.length) (more : List (Option Nat × α)) :
    rooms ⟨s.puts ++ more, s.takes⟩ = s.rooms := by
  simp only [rooms, placed, List.take_append_of_le_length (Nat.succ_le_of_lt h)]

theorem given_joinTake (h : s.puts.length ≤ s.takes.length) (more : List Nat) :
    given ⟨s.puts, s.takes ++ more⟩ = s.given := by
  simp only [given, zip_longer_left h]

theorem rooms_of_le {takes takes' : List Nat} {puts : List (Option Nat × α)}
    (h : puts.length ≤ takes.length) (h' : puts.length ≤ takes'.length) :
    rooms ⟨puts, takes'⟩ = rooms ⟨puts, takes⟩ := by
  simp only [rooms, placed, List.take_of_length_le (Nat.le_succ_of_le h),
    List.take_of_length_le (Nat.le_succ_of_le h')]

theorem rooms_eq (s : Accepted α) :
    s.rooms = (s.placed.filterMap (·.1)).map fun i => (i, .room) := by
  rw [rooms, List.map_filterMap]

end Accepted

/-- The value in the slot is that of the first put without a take. -/
theorem Contents.Agrees.held {contents : Contents α Nat} {s : Accepted α} {who : Option Nat} {a : α}
    (h : contents.Agrees asks s) (hp : s.puts[s.takes.length]? = some (who, a)) :
    contents.held? = some a := by
  cases contents with
  | empty readers takers =>
    rw [List.getElem?_eq_none h.1] at hp
    cases hp
  | full held putters =>
    have hheld := h.2.1
    rw [hp] at hheld
    exact hheld.symm

namespace Ledger

variable {contents next : Contents α Nat} {s : Accepted α} {out new : List (Call α Nat)}

theorem of_perm {out' : List (Call α Nat)} (h : Ledger asks contents s out) (hp : out'.Perm out) :
    Ledger asks contents s out' :=
  { h with
    received := (hp.filter _).trans h.received
    returned := (hp.filter _).trans h.returned }

/-- Calls of operations that neither put nor take are of no account. -/
theorem append_other (h : Ledger asks contents s out)
    (hnew : ∀ c ∈ new, takesCall asks c = false ∧ putsCall asks c = false) :
    Ledger asks contents s (out ++ new) := by
  have ht : new.filter (takesCall asks) = [] := by
    simpa [List.filter_eq_nil_iff] using fun a b hm => (hnew (a, b) hm).1
  have hp : new.filter (putsCall asks) = [] := by
    simpa [List.filter_eq_nil_iff] using fun a b hm => (hnew (a, b) hm).2
  refine { h with received := ?_, returned := ?_ }
  · rw [List.filter_append, ht, List.append_nil]
    exact h.received
  · rw [List.filter_append, hp, List.append_nil]
    exact h.returned

theorem received_append (h : Ledger asks contents s out) {more : List (Call α Nat)}
    (hnew : new.filter (takesCall asks) = more) :
    ((out ++ new).filter (takesCall asks)).Perm (s.given ++ more) := by
  rw [List.filter_append, hnew]
  exact h.received.append_right more

theorem returned_append (h : Ledger asks contents s out) {more : List (Call α Nat)}
    (hnew : new.filter (putsCall asks) = more) :
    ((out ++ new).filter (putsCall asks)).Perm (s.rooms ++ more) := by
  rw [List.filter_append, hnew]
  exact h.returned.append_right more

theorem puts_nodup_append (h : Ledger asks contents s out) (a : α)
    (hi : i ∉ s.puts.filterMap (·.1)) :
    ((s.puts ++ [(some i, a)]).filterMap (·.1)).Nodup := by
  rw [List.filterMap_append]
  exact List.nodup_append.2 ⟨h.puts_nodup, by simp, by
    rintro x hx y hy rfl
    obtain rfl : x = i := by simpa using hy
    exact hi hx⟩

theorem puts_ask_append (h : Ledger asks contents s out) {a : α}
    (hi : asks[i]? = some (.put a) ∨ asks[i]? = some (.tryPut a)) :
    ∀ j b, (some j, b) ∈ s.puts ++ [(some i, a)] →
      asks[j]? = some (.put b) ∨ asks[j]? = some (.tryPut b) := by
  intro j b hm
  rcases List.mem_append.1 hm with hm | hm
  · exact h.puts_ask j b hm
  · obtain ⟨rfl, rfl⟩ : j = i ∧ b = a := by simpa using hm
    exact hi

theorem takes_nodup_append (h : Ledger asks contents s out) (hi : i ∉ s.takes) :
    (s.takes ++ [i]).Nodup :=
  List.nodup_append.2 ⟨h.takes_nodup, by simp, by
    rintro x hx y hy rfl
    obtain rfl : x = i := by simpa using hy
    exact hi hx⟩

theorem takes_ask_append (h : Ledger asks contents s out)
    (hi : asks[i]? = some .take ∨ asks[i]? = some .tryTake) :
    ∀ j ∈ s.takes ++ [i], asks[j]? = some .take ∨ asks[j]? = some .tryTake := by
  intro j hm
  rcases List.mem_append.1 hm with hm | hm
  · exact h.takes_ask j hm
  · obtain rfl : j = i := by simpa using hm
    exact hi

/-- A value goes to the readers and to the first taker, or into the slot. -/
theorem offer {a : α} {calls : List (Call α Nat)} (h : Ledger asks contents s out)
    (hi : asks[i]? = some (.put a) ∨ asks[i]? = some (.tryPut a))
    (hfresh : i ∉ s.puts.filterMap (·.1)) (ho : contents.offer? a = some (next, calls)) :
    Ledger asks next ⟨s.puts ++ [(some i, a)], s.takes⟩ (out ++ (calls ++ [(i, .room)])) := by
  cases contents with
  | full held putters => simp [Contents.offer?] at ho
  | empty readers takers =>
    obtain ⟨hle, htakers, hread, htake⟩ := h.agrees
    have hcalls : calls = (readers.map fun r => (r.callback, Notice.value a)) ++
        (takers.take 1).map fun t => (t.callback, .value a) := by
      cases takers <;> simp [Contents.offer?] at ho <;> simp [← ho.2]
    have htaken : ((takers.take 1).map fun t => (t.callback, Notice.value a)) =
        ((s.takes.drop s.puts.length).take 1).map fun t => (t, .value a) := by
      rw [← htakers]
      cases takers <;> simp
    have hown : takesCall asks (i, Notice.room (α := α)) = false ∧
        putsCall asks (i, Notice.room (α := α)) = true := by
      rcases hi with hi | hi <;> simp [takesCall, putsCall, hi, Ask.takes, Ask.puts]
    have hreaders : ∀ r ∈ readers, takesCall asks (r.callback, .value a) = false ∧
        putsCall asks (r.callback, .value a) = false := by
      intro r hr
      simp [takesCall, putsCall, hread r hr, Ask.takes, Ask.puts]
    have hfirst : ∀ t ∈ takers.take 1, takesCall asks (t.callback, .value a) = true ∧
        putsCall asks (t.callback, .value a) = false := by
      intro t ht
      simp [takesCall, putsCall, htake t (List.mem_of_mem_take ht), Ask.takes, Ask.puts]
    refine ⟨h.takes_nodup, h.puts_nodup_append a hfresh, h.takes_ask, h.puts_ask_append hi,
      ?_, ?_, ?_⟩
    · rw [Accepted.given_offer hle, ← htaken]
      refine h.received_append ?_
      have hr := filter_map_none fun r hr => (hreaders r hr).1
      have ht := filter_map_all fun t ht => (hfirst t ht).1
      rw [hcalls, List.filter_append, List.filter_append, hr, ht]
      simp [hown.1]
    · rw [Accepted.rooms_offer hle]
      refine h.returned_append ?_
      have hr := filter_map_none fun r hr => (hreaders r hr).2
      have ht := filter_map_none fun t ht => (hfirst t ht).2
      rw [hcalls, List.filter_append, List.filter_append, hr, ht]
      simp [hown.2]
    · cases takers with
      | nil =>
        obtain ⟨rfl, -⟩ : Contents.full a [] = next ∧ _ := by simpa [Contents.offer?] using ho
        have hlen : s.takes.length = s.puts.length := by
          have := List.drop_eq_nil_iff.1 htakers.symm
          omega
        simp [Contents.Agrees, hlen]
      | cons t rest =>
        obtain ⟨rfl, -⟩ : Contents.empty [] rest = next ∧ _ := by simpa [Contents.offer?] using ho
        have hlen : s.puts.length < s.takes.length := by
          have := congrArg List.length htakers
          simp at this
          omega
        have hdrop : rest.map (·.callback) = s.takes.drop (s.puts.length + 1) := by
          rw [← List.tail_drop, ← htakers]
          rfl
        refine ⟨by simpa using Nat.succ_le_of_lt hlen, by simpa using hdrop, by simp, ?_⟩
        exact fun t' ht' => htake t' (List.mem_cons_of_mem t ht')

/-- The value in the slot goes to the one who takes it, and the first putter's takes its place. -/
theorem poll {held : α} {calls : List (Call α Nat)} (h : Ledger asks contents s out)
    (hi : asks[i]? = some .take ∨ asks[i]? = some .tryTake) (hfresh : i ∉ s.takes)
    (hp : contents.poll? = some (next, calls, held)) :
    Ledger asks next ⟨s.puts, s.takes ++ [i]⟩ (out ++ (calls ++ [(i, .value held)])) := by
  cases contents with
  | empty readers takers => simp [Contents.poll?] at hp
  | full value putters =>
    obtain ⟨hlt, hheld, hputters, hput⟩ := h.agrees
    obtain ⟨rfl, hcalls⟩ : value = held ∧
        calls = (putters.take 1).map fun x => (x.2.callback, .room) := by
      cases putters <;> simp [Contents.poll?] at hp <;> simp [hp]
    have hown : takesCall asks (i, Notice.value value) = true ∧
        putsCall asks (i, Notice.value value) = false := by
      rcases hi with hi | hi <;> simp [takesCall, putsCall, hi, Ask.takes, Ask.puts]
    have hfirst : ∀ x ∈ putters.take 1, takesCall asks (x.2.callback, Notice.room (α := α)) = false ∧
        putsCall asks (x.2.callback, Notice.room (α := α)) = true := by
      intro x hx
      simp [takesCall, putsCall, hput x (List.mem_of_mem_take hx), Ask.takes, Ask.puts]
    obtain ⟨p, hget, hvalue⟩ := Option.map_eq_some_iff.1 hheld
    have hdrop : s.puts.drop s.takes.length = p :: s.puts.drop (s.takes.length + 1) := by
      obtain ⟨hl, rfl⟩ := List.getElem?_eq_some_iff.1 hget
      exact List.drop_eq_getElem_cons hl
    refine ⟨h.takes_nodup_append hfresh, h.puts_nodup, h.takes_ask_append hi, h.puts_ask,
      ?_, ?_, ?_⟩
    · rw [Accepted.given_poll (Nat.le_of_lt hlt)]
      refine h.received_append ?_
      have hr := filter_map_none fun x hx => (hfirst x hx).1
      rw [hcalls, List.filter_append, hr]
      simp [hown.1, hdrop, hvalue]
    · rw [Accepted.rooms_poll]
      refine h.returned_append ?_
      have hr := filter_map_all fun x hx => (hfirst x hx).2
      rw [hcalls, List.filter_append, hr, ← hputters]
      cases putters <;> simp [hown.2]
    · cases putters with
      | nil =>
        obtain ⟨rfl, -⟩ : Contents.empty [] [] = next ∧ _ := by simpa [Contents.poll?] using hp
        have hlen : s.puts.length = s.takes.length + 1 := by
          have := List.drop_eq_nil_iff.1 hputters.symm
          omega
        simp [Contents.Agrees, hlen]
      | cons x rest =>
        obtain ⟨rfl, -⟩ : Contents.full x.1 rest = next ∧ _ := by simpa [Contents.poll?] using hp
        have hcons : s.puts.drop (s.takes.length + 1) =
            (some x.2.callback, x.1) :: rest.map fun x => (some x.2.callback, x.1) := hputters.symm
        have hnext : s.puts[s.takes.length + 1]? = some (some x.2.callback, x.1) := by
          rw [← List.head?_drop, hcons]
          rfl
        have hrest : rest.map (fun x => (some x.2.callback, x.1)) =
            s.puts.drop (s.takes.length + 1 + 1) := by
          rw [← List.tail_drop, hcons]
          rfl
        have hlen : s.takes.length + 1 < s.puts.length := by
          have := congrArg List.length hcons
          simp at this
          omega
        refine ⟨by simpa using hlen, by simp [hnext], by simpa using hrest, ?_⟩
        exact fun y hy => hput y (List.mem_cons_of_mem x hy)

theorem joinPut {a : α} {id : Nat} (h : Ledger asks contents s out)
    (hi : asks[i]? = some (.put a)) (hfresh : i ∉ s.puts.filterMap (·.1))
    (hn : contents.withPutter? a ⟨id, i⟩ = some next) :
    Ledger asks next ⟨s.puts ++ [(some i, a)], s.takes⟩ out := by
  cases contents with
  | empty readers takers => simp [Contents.withPutter?] at hn
  | full held putters =>
    obtain ⟨hlt, hheld, hputters, hput⟩ := h.agrees
    obtain rfl : Contents.full held (putters ++ [(a, ⟨id, i⟩)]) = next := by
      simpa [Contents.withPutter?] using hn
    refine ⟨h.takes_nodup, h.puts_nodup_append a hfresh, h.takes_ask, h.puts_ask_append (.inl hi),
      ?_, ?_, ?_, ?_, ?_, ?_⟩
    · rw [Accepted.given_joinPut (Nat.le_of_lt hlt)]
      exact h.received
    · rw [Accepted.rooms_joinPut hlt]
      exact h.returned
    · simpa using Nat.lt_succ_of_lt hlt
    · rw [List.getElem?_append_left hlt]
      exact hheld
    · rw [List.drop_append_of_le_length (Nat.succ_le_of_lt hlt), ← hputters]
      simp
    · intro x hx
      rcases List.mem_append.1 hx with hx | hx
      · exact hput x hx
      · obtain rfl : x = (a, ⟨id, i⟩) := by simpa using hx
        exact hi

theorem joinTake {id : Nat} (h : Ledger asks contents s out) (hi : asks[i]? = some .take)
    (hfresh : i ∉ s.takes) (hn : contents.withTaker? ⟨id, i⟩ = some next) :
    Ledger asks next ⟨s.puts, s.takes ++ [i]⟩ out := by
  cases contents with
  | full held putters => simp [Contents.withTaker?] at hn
  | empty readers takers =>
    obtain ⟨hle, htakers, hread, htake⟩ := h.agrees
    obtain rfl : Contents.empty readers (takers ++ [⟨id, i⟩]) = next := by
      simpa [Contents.withTaker?] using hn
    have hle' : s.puts.length ≤ (s.takes ++ [i]).length := by simpa using Nat.le_succ_of_le hle
    refine ⟨h.takes_nodup_append hfresh, h.puts_nodup, h.takes_ask_append (.inl hi), h.puts_ask,
      ?_, ?_, hle', ?_, hread, ?_⟩
    · rw [Accepted.given_joinTake hle]
      exact h.received
    · rw [Accepted.rooms_of_le hle hle']
      exact h.returned
    · rw [List.drop_append_of_le_length hle, ← htakers]
      simp
    · intro t ht
      rcases List.mem_append.1 ht with ht | ht
      · exact htake t ht
      · obtain rfl : t = ⟨id, i⟩ := by simpa using ht
        exact hi

theorem joinRead {id : Nat} (h : Ledger asks contents s out) (hi : asks[i]? = some .read)
    (hn : contents.withReader? ⟨id, i⟩ = some next) : Ledger asks next s out := by
  cases contents with
  | full held putters => simp [Contents.withReader?] at hn
  | empty readers takers =>
    obtain ⟨hle, htakers, hread, htake⟩ := h.agrees
    obtain rfl : Contents.empty (readers ++ [⟨id, i⟩]) takers = next := by
      simpa [Contents.withReader?] using hn
    refine { h with agrees := ⟨hle, htakers, ?_, htake⟩ }
    intro r hr
    rcases List.mem_append.1 hr with hr | hr
    · exact hread r hr
    · obtain rfl : r = ⟨id, i⟩ := by simpa using hr
      exact hi

section Leaves

variable {readers takers : List (Waiter Nat)} {held : α} {putters : List (α × Waiter Nat)}
  {left : List Nat} {id j : Nat}

theorem filter_takes_of_stays {l : List Nat} (h : ∀ j ∈ l, j ∉ left) :
    l.filter (!left.contains ·) = l :=
  List.filter_eq_self.2 fun j hj => by simpa using h j hj

theorem filter_puts_of_stays {l : List (Option Nat × α)} (h : ∀ j a, (some j, a) ∈ l → j ∉ left) :
    (l.filter fun p => !p.1.any left.contains) = l := by
  rw [List.filter_eq_self]
  rintro ⟨_ | j, a⟩ hm
  · rfl
  · simpa using h j a hm

/-- Whoever leaves an empty slot reads, or takes and has not been matched yet. -/
theorem left_of_empty (h : Ledger asks (.empty readers takers) s out)
    (hj : j ∈ (Contents.empty readers takers : Contents α Nat).callbacks id) :
    asks[j]? = some .read ∨ asks[j]? = some .take ∧ j ∉ s.takes.take s.puts.length := by
  obtain ⟨-, htakers, hread, htake⟩ := h.agrees
  obtain ⟨w, hw, rfl⟩ := List.mem_map.1 hj
  rcases List.mem_append.1 (List.mem_filter.1 hw).1 with hw | hw
  · exact .inl (hread w hw)
  · refine .inr ⟨htake w hw, fun hm => ?_⟩
    have hdrop : w.callback ∈ s.takes.drop s.puts.length := htakers ▸ List.mem_map_of_mem hw
    exact List.disjoint_take_drop h.takes_nodup (Nat.le_refl _) hm hdrop

/-- Whoever leaves a full slot puts, and its value has not been placed yet. -/
theorem left_of_full (h : Ledger asks (.full held putters) s out)
    (hj : j ∈ (Contents.full held putters).callbacks id) :
    (∃ a, asks[j]? = some (.put a)) ∧ j ∉ s.placed.filterMap (·.1) := by
  obtain ⟨-, -, hputters, hput⟩ := h.agrees
  obtain ⟨x, hx, rfl⟩ := List.mem_map.1 hj
  have hx := (List.mem_filter.1 hx).1
  refine ⟨⟨x.1, hput x hx⟩, fun hm => ?_⟩
  have hdrop : x.2.callback ∈ (s.puts.drop (s.takes.length + 1)).filterMap (·.1) := by
    rw [← hputters]
    exact List.mem_filterMap.2 ⟨_, List.mem_map_of_mem hx, rfl⟩
  have hnodup := h.puts_nodup
  rw [← List.take_append_drop (s.takes.length + 1) s.puts, List.filterMap_append] at hnodup
  exact (List.nodup_append.1 hnodup).2.2 _ hm _ hdrop rfl

/-- The takers that stay are those of another number. -/
theorem filter_takers (h : Ledger asks (.empty readers takers) s out) (id : Nat) :
    (takers.map (·.callback)).filter
        (!((Contents.empty readers takers : Contents α Nat).callbacks id).contains ·) =
      (takers.filter (·.id != id)).map (·.callback) := by
  obtain ⟨-, htakers, hread, htake⟩ := h.agrees
  have hnodup : (takers.map (·.callback)).Nodup :=
    htakers ▸ h.takes_nodup.sublist (List.drop_sublist _ _)
  rw [List.filter_map]
  congr 1
  refine List.filter_congr fun t ht => ?_
  have hr : ((readers.filter (·.id == id)).map (·.callback)).contains t.callback = false := by
    rw [Bool.eq_false_iff, ne_eq, List.contains_iff_mem]
    intro hm
    obtain ⟨r, hr, he⟩ := List.mem_map.1 hm
    have hask := hread r (List.mem_filter.1 hr).1
    rw [he, htake t ht] at hask
    simp at hask
  have hc := contains_callbacks (·.id) hnodup id ht
  rw [Contents.callbacks, List.filter_append, List.map_append]
  simp only [Function.comp, List.contains_append, hr, hc, Bool.false_or]
  rfl

/-- The putters that stay are those of another number. -/
theorem filter_putters (h : Ledger asks (.full held putters) s out) (id : Nat) :
    ((putters.map fun x => (some x.2.callback, x.1)).filter
        fun p => !p.1.any ((Contents.full held putters).callbacks id).contains) =
      (putters.filter (·.2.id != id)).map fun x => (some x.2.callback, x.1) := by
  have hnodup : (putters.map (·.2.callback)).Nodup := by
    have hdrop := h.puts_nodup.sublist ((List.drop_sublist (s.takes.length + 1) _).filterMap _)
    rw [← h.agrees.2.2.1] at hdrop
    simpa [List.filterMap_map] using hdrop
  rw [List.filter_map]
  congr 1
  refine List.filter_congr fun x hx => ?_
  have hc := contains_callbacks (·.2.id) hnodup id hx
  rw [Contents.callbacks]
  simp only [Function.comp, Option.any_some, hc]
  rfl

/-- Takers that leave have not been matched yet, and no put leaves with them. -/
theorem record_leave_empty (h : Ledger asks (.empty readers takers) s out) (id : Nat) :
    s.record (.empty readers takers) i (.leave id) =
      ⟨s.puts, s.takes.take s.puts.length ++ (takers.filter (·.id != id)).map (·.callback)⟩ := by
  have hputs : ∀ j a, (some j, a) ∈ s.puts →
      j ∉ (Contents.empty readers takers : Contents α Nat).callbacks id := by
    intro j a hm hj
    rcases h.left_of_empty hj with hr | ⟨hr, -⟩ <;> rcases h.puts_ask j a hm with hp | hp <;>
      simp [hr] at hp
  have hmatched : ∀ j ∈ s.takes.take s.puts.length,
      j ∉ (Contents.empty readers takers : Contents α Nat).callbacks id := by
    intro j hm hj
    rcases h.left_of_empty hj with hr | ⟨-, hn⟩
    · rcases h.takes_ask j (List.mem_of_mem_take hm) with ht | ht <;> simp [hr] at ht
    · exact hn hm
  have hsplit : s.takes = s.takes.take s.puts.length ++ takers.map (·.callback) := by
    rw [h.agrees.2.1, List.take_append_drop]
  rw [Accepted.record, filter_puts_of_stays hputs]
  conv_lhs => rw [hsplit]
  rw [List.filter_append, filter_takes_of_stays hmatched, h.filter_takers]

/-- Putters that leave have not been placed yet, and no take leaves with them. -/
theorem record_leave_full (h : Ledger asks (.full held putters) s out) (id : Nat) :
    s.record (.full held putters) i (.leave id) =
      ⟨s.placed ++ (putters.filter (·.2.id != id)).map fun x => (some x.2.callback, x.1),
        s.takes⟩ := by
  have htakes : ∀ j ∈ s.takes, j ∉ (Contents.full held putters).callbacks id := by
    intro j hm hj
    obtain ⟨⟨a, ha⟩, -⟩ := h.left_of_full hj
    rcases h.takes_ask j hm with ht | ht <;> simp [ha] at ht
  have hplaced : ∀ j a, (some j, a) ∈ s.placed → j ∉ (Contents.full held putters).callbacks id :=
    fun j a hm hj => (h.left_of_full hj).2 (List.mem_filterMap.2 ⟨_, hm, rfl⟩)
  have hsplit : s.puts = s.placed ++ putters.map fun x => (some x.2.callback, x.1) := by
    rw [h.agrees.2.2.1, Accepted.placed, List.take_append_drop]
  rw [Accepted.record, filter_takes_of_stays htakes]
  conv_lhs => rw [hsplit]
  rw [List.filter_append, filter_puts_of_stays hplaced, h.filter_putters]

theorem leave_empty (id : Nat) (h : Ledger asks (.empty readers takers) s out) :
    Ledger asks ((Contents.empty readers takers).without id)
      (s.record (.empty readers takers) i (.leave id)) out := by
  obtain ⟨hle, htakers, hread, htake⟩ := h.agrees
  have hlen : (s.takes.take s.puts.length).length = s.puts.length := List.length_take_of_le hle
  have hle' : s.puts.length ≤ (s.takes.take s.puts.length ++
      (takers.filter (·.id != id)).map (·.callback)).length := by
    rw [List.length_append, hlen]
    exact Nat.le_add_right _ _
  have hstay : (s.takes.take s.puts.length ++ (takers.filter (·.id != id)).map (·.callback)).Sublist
      s.takes := by
    conv_rhs => rw [← List.take_append_drop s.puts.length s.takes, ← htakers]
    exact List.Sublist.append_left (List.filter_sublist.map _) _
  rw [h.record_leave_empty]
  refine ⟨h.takes_nodup.sublist hstay, h.puts_nodup, fun j hj => h.takes_ask j (hstay.subset hj),
    h.puts_ask, ?_, ?_, hle', (List.drop_left' hlen).symm, ?_, ?_⟩
  · have hgiven := Accepted.given_joinTake (s := ⟨s.puts, s.takes.take s.puts.length⟩)
      (Nat.le_of_eq hlen.symm)
    have hs := hgiven (s.takes.drop s.puts.length)
    rw [List.take_append_drop] at hs
    rw [hgiven, ← hs]
    exact h.received
  · rw [Accepted.rooms_of_le hle hle']
    exact h.returned
  · exact fun r hr => hread r (List.mem_filter.1 hr).1
  · exact fun t ht => htake t (List.mem_filter.1 ht).1

theorem leave_full (id : Nat) (h : Ledger asks (.full held putters) s out) :
    Ledger asks ((Contents.full held putters).without id)
      (s.record (.full held putters) i (.leave id)) out := by
  obtain ⟨hlt, hheld, hputters, hput⟩ := h.agrees
  have hlen : s.placed.length = s.takes.length + 1 :=
    List.length_take_of_le (Nat.succ_le_of_lt hlt)
  have hin : s.takes.length < s.placed.length := by omega
  have hstay : (s.placed ++
      (putters.filter (·.2.id != id)).map fun x => (some x.2.callback, x.1)).Sublist s.puts := by
    conv_rhs => rw [← List.take_append_drop (s.takes.length + 1) s.puts, ← hputters]
    exact List.Sublist.append_left (List.filter_sublist.map _) _
  rw [h.record_leave_full]
  refine ⟨h.takes_nodup, h.puts_nodup.sublist (hstay.filterMap _), h.takes_ask,
    fun j a hj => h.puts_ask j a (hstay.subset hj), ?_, ?_, ?_, ?_, (List.drop_left' hlen).symm, ?_⟩
  · have hgiven := Accepted.given_joinPut (s := ⟨s.placed, s.takes⟩) (Nat.le_of_lt hin)
    have hs := hgiven (s.puts.drop (s.takes.length + 1))
    rw [Accepted.placed, List.take_append_drop] at hs
    rw [hgiven, Accepted.placed, ← hs]
    exact h.received
  · have hrooms := Accepted.rooms_joinPut (s := ⟨s.placed, s.takes⟩) hin
    have hs := hrooms (s.puts.drop (s.takes.length + 1))
    rw [Accepted.placed, List.take_append_drop] at hs
    rw [hrooms, Accepted.placed, ← hs]
    exact h.returned
  · rw [List.length_append]
    exact Nat.lt_add_right _ hin
  · rw [List.getElem?_append_left hin, ← hheld, Accepted.placed,
      List.getElem?_take_of_lt (Nat.lt_succ_self _)]
  · exact fun x hx => hput x (List.mem_filter.1 hx).1

end Leaves

end Ledger
end Effects.MVar
