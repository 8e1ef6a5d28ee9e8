import Mathlib.Data.List.Permutation
import Effects.Proofs.Queue.Standing

/-!
What becomes of those who wait at a slot, in whatever order all steps are taken: each is served once,
or leaves and neither gets nor gives anything.
-/

namespace Effects.MVar.Queue

open Service History

variable {α : Type} [Datum α] {m : MVar α} {c : Shelf} {f : SlotFloor} {t : Scene (Visit α) Note}

/-- How a wait ends that is told so. -/
def outcome (notice : Notice Parcel) : Exit := (World.Notice.reply (plainNotice notice)).toExit

/-- Waits until it is served. -/
def Waits (q : Party (Visit α)) : Prop :=
  (∃ a, q.call = some (.put a)) ∨ q.call = some .take ∨ q.call = some .read

/-- The slot, created empty or with a value. -/
def beginning (v : Option Value) : Shelf :=
  match v with
  | some a => .full ⟨none, a⟩ []
  | none => .empty [] []

structure Fates (m : MVar α) (c : Shelf) (t : Scene (Visit α) Note) : Prop where
  /-- The slot is as its history says, and every step has found it as it should be. -/
  state : (t.world.slots[m.id]?).map (·.contents) = some (shelf c (notes t.seen)).plain
  fits : Fits c (notes t.seen)
  /-- Whoever was queued waits, or was taken off the queue, or was removed, and only one of these. -/
  flow : (joined (notes t.seen)).Perm ((shelf c (notes t.seen)).waiters ++
    (served c (notes t.seen)).map (·.1) ++ left c (notes t.seen))
  once : ((joined (notes t.seen)).map (·.id)).Nodup
  /-- Nobody is taken off the queue by two steps. -/
  one : ∀ {before before' rest rest' n n'} {x x' : Served}, notes t.seen = before ++ n :: rest →
    notes t.seen = before' ++ n' :: rest' → x ∈ n.serves (shelf c before) →
    x' ∈ n'.serves (shelf c before') → x.1 = x'.1 → before = before'
  waiting : ∀ {w}, w ∈ (shelf c (notes t.seen)).waiters → ∀ x, .told w.callback x ∉ t.seen
  /-- Whoever is taken off is told what the step had for it, and ends so. -/
  serving : ∀ {w notice}, (w, notice) ∈ served c (notes t.seen) → Meets (notes t.seen) (w, notice) ∧
    (∀ {x}, .told w.callback x ∈ t.seen → x = reply notice) ∧
      ∀ {i : Nat} {q : Party (Visit α)} {exit}, .opened i w.callback ∈ t.seen →
        t.parties[i]? = some q → Waits q → q.Ends exit → exit = outcome notice
  /-- Whoever is removed is so by its own token, is interrupted, and gets nothing. -/
  leaving : ∀ {w}, w ∈ left c (notes t.seen) →
    .pushed ((procedure m).token ⟨.leave w.id, some w.callback⟩) ∈ t.seen ∧
      (∀ notice, (w, notice) ∉ served c (notes t.seen)) ∧
      (∀ {x}, .told w.callback x ∈ t.seen → x = interrupted) ∧
      ∀ {i : Nat} {q : Party (Visit α)} {exit}, .opened i w.callback ∈ t.seen →
        t.parties[i]? = some q → Waits q → q.Ends exit → exit = .canceled
  /-- Nor is its value ever in the slot, or given to anybody. -/
  undelivered : ∀ {w p}, w ∈ left c (notes t.seen) →
    ((shelf c (notes t.seen)).held? = some p ∨ ∃ l, (l, .value p) ∈ called c (notes t.seen)) →
      p.from? ≠ some w.id
  /-- The others go on waiting in the same order. -/
  order : ∀ {before id rest}, notes t.seen = before ++ .removed id :: rest →
    shelf c (before ++ [.removed id]) = (shelf c before).without id ∧
      (shelf c (before ++ [.removed id])).waiters = (shelf c before).waiters.filter (·.id != id)
  queued : Queued (shelf c (notes t.seen)) (joined (notes t.seen))
  /-- A value that is put goes to all readers, who then no longer wait, and to the first taker, or
  into the slot. -/
  offers : ∀ {before who a rest}, notes t.seen = before ++ .offered who a :: rest →
    ∃ readers takers, shelf c before = .empty readers takers ∧
      (Note.offered who a).serves (shelf c before) =
        (readers ++ takers.take 1).map (fun w => (w, .value ⟨none, a⟩)) ∧
      shelf c (before ++ [.offered who a]) =
        if takers = [] then .full ⟨none, a⟩ [] else .empty [] (takers.drop 1)
  /-- The value that is taken is followed by that of the first putter. -/
  polls : ∀ {before who rest}, notes t.seen = before ++ .polled who :: rest →
    ∃ held putters, shelf c before = .full held putters ∧
      (Note.polled who).answers (shelf c before) = who.toList.map (fun l => (l, .value held)) ∧
      (Note.polled who).serves (shelf c before) = (putters.take 1).map (fun x => (x.2, .room)) ∧
      (shelf c (before ++ [.polled who])).held? = putters.head?.map (·.1)
  /-- Nothing but a take removes a value. -/
  kept : ∀ {before n rest p}, notes t.seen = before ++ n :: rest →
    (shelf c before).held? = some p →
      (∃ who, n = .polled who) ∨ (shelf c (before ++ [n])).held? = some p
  looks : ∀ {before l rest}, notes t.seen = before ++ .looked l :: rest →
    shelf c (before ++ [.looked l]) = shelf c before ∧
      ∃ p, (shelf c before).held? = some p ∧ (Note.looked l).calls (shelf c before) = [(l, .value p)]
  /-- A wait ends as it was told, or was given up before or after it was queued. -/
  ends : ∀ {i : Nat} {q : Party (Visit α)} {exit}, t.parties[i]? = some q → Waits q →
    q.Ends exit → (exit = .canceled ∧ ∀ l, .opened i l ∉ t.seen) ∨ ∃ l, .opened i l ∈ t.seen ∧
      ((∃ notice, (l, notice) ∈ called c (notes t.seen) ∧ exit = outcome notice) ∨
        (exit = .canceled ∧ ∃ w ∈ left c (notes t.seen), w.callback = l))
  told_once : ((tolds t.seen).map (·.1)).Nodup
  told : (tolds t.seen).Subperm (dues c (notes t.seen))
  told_all : (∀ q ∈ t.parties, q.Rests) → (tolds t.seen).Perm (dues c (notes t.seen))

section Shelves

variable {c c' : Shelf} {n : Note}

/-- A value that is in the slot stays there unless it is taken. -/
theorem Note.held_kept (ha : n.onto? c = some c') {p : Parcel} (hp : c.held? = some p) :
    (∃ who, n = .polled who) ∨ c'.held? = some p := by
  cases onto_of ha with
  | empties who | refills who => exact .inl ⟨who, rfl⟩
  | putter | looks => exact .inr hp
  | taker | reader | fills | hands => cases hp
  | removes => cases c <;> exact .inr hp

theorem Note.offered_apply {who : Option LatchId} {a : Value}
    (ha : (Note.offered who a).onto? c = some c') : ∃ readers takers, c = .empty readers takers ∧
      (Note.offered who a).serves c =
        (readers ++ takers.take 1).map (fun w => (w, .value ⟨none, a⟩)) ∧
      c' = if takers = [] then .full ⟨none, a⟩ [] else .empty [] (takers.drop 1) := by
  cases c with
  | full held putters => cases ha
  | empty readers takers =>
    refine ⟨readers, takers, rfl, rfl, ?_⟩
    cases takers <;> cases ha <;> rfl

theorem Note.polled_apply {who : Option LatchId} (ha : (Note.polled who).onto? c = some c') :
    ∃ held putters, c = .full held putters ∧
      (Note.polled who).answers c = who.toList.map (fun l => (l, .value held)) ∧
      (Note.polled who).serves c = (putters.take 1).map (fun x => (x.2, .room)) ∧
      c'.held? = putters.head?.map (·.1) := by
  cases c with
  | empty readers takers => cases ha
  | full held putters =>
    refine ⟨held, putters, rfl, by simp [Note.answers, Contents.held?], rfl, ?_⟩
    cases putters <;> cases ha <;> rfl

end Shelves

/-- Of two different steps the later one serves somebody else. -/
theorem History.Legal.serves_once {h : History} {next : Nat} (hh : Legal c h next)
    {before before' rest rest' : History} {n n' : Note} {x x' : Served}
    (heq : h = before ++ n :: rest) (heq' : h = before' ++ n' :: rest')
    (hx : x ∈ n.serves (shelf c before)) (hx' : x' ∈ n'.serves (shelf c before')) (hsame : x.1 = x'.1) :
    before'.length ≤ before.length := by
  by_contra hlt
  have hprefix : before ++ [n] <+: before' := by
    have hb : before ++ [n] <+: h := ⟨rest, by simp [heq]⟩
    have hb' : before' <+: h := ⟨n' :: rest', heq'.symm⟩
    exact List.prefix_of_prefix_length_le hb hb' (by simp; omega)
  obtain ⟨mid, rfl⟩ := hprefix
  have hearlier : x ∈ served c (before ++ [n] ++ mid) :=
    mem_along.2 ⟨before, n, mid, by simp, hx⟩
  have hserved : ((served c h).map (·.1.id)).Nodup := by
    have hall := hh.fates_nodup
    rw [List.map_append, List.map_append, List.map_map] at hall
    exact (List.nodup_append.1 (List.nodup_append.1 hall).1).2.1
  rw [heq', served, along_append, along, List.map_append, List.map_append] at hserved
  refine (List.nodup_append.1 hserved).2.2 _ (List.mem_map_of_mem hearlier) _
    (List.mem_append_left _ (List.mem_map_of_mem hx')) ?_
  rw [hsame]

/-- Whoever has left has not been served. -/
theorem History.Legal.served_id_ne {h : History} {next : Nat} (hh : Legal c h next) {x : Served}
    (hx : x ∈ served c h) {w : Waiter LatchId} (hw : w ∈ left c h) : x.1.id ≠ w.id := by
  have hall := hh.fates_nodup
  rw [List.map_append] at hall
  refine (List.nodup_append.1 hall).2.2 _ ?_ _ (List.mem_map_of_mem hw)
  exact List.mem_map_of_mem (List.mem_append_right _ (List.mem_map_of_mem hx))

section Parties

variable (hS : Service.Stands (procedure m) (subject m) f t) (hf : Holds m c f)

include hS hf

theorem ending {i : Nat} {q : Party (Visit α)} {exit : Exit} (hq : t.parties[i]? = some q)
    (hw : Waits q) (he : q.Ends exit) : (exit = .canceled ∧ ∀ l, .opened i l ∉ t.seen) ∨
      ∃ l, .opened i l ∈ t.seen ∧ ∃ reply : Reply,
        (l, .ok reply) ∈ dues c (notes f.seen) ∧ exit = reply.toExit := by
  obtain ⟨g, r, hcall, hg⟩ : ∃ g r, q.call = some g ∧ (procedure m).asked g = .wait r := by
    obtain ⟨a, hcall⟩ | hcall | hcall := hw <;> exact ⟨_, _, hcall, rfl⟩
  obtain hnone | ⟨l, reply, hl, hfirst, rfl⟩ := hS.ends hq hcall hg he
  · exact .inl hnone
  · rw [hS.seen] at hfirst
    exact .inr ⟨l, hl, reply, hf.inv.first_due hfirst, rfl⟩

/-- Whoever has one call due ends so. -/
theorem ends_due {i : Nat} {q : Party (Visit α)} {exit : Exit} {l : LatchId} {reply : Reply}
    (hl : .opened i l ∈ t.seen) (hq : t.parties[i]? = some q) (hw : Waits q) (he : q.Ends exit)
    (hd : (l, .ok reply) ∈ dues c (notes f.seen)) : exit = reply.toExit := by
  obtain ⟨-, hnone⟩ | ⟨l', hl', reply', hd', rfl⟩ := ending hS hf hq hw he
  · exact absurd hl (hnone l)
  · rw [hS.seen] at hl hl'
    obtain rfl := hS.single hl hl'
    rw [Except.ok.inj (hf.inv.legal.1.dues_eq hd hd')]

omit hS in
/-- Whoever has left has done so by its own token. -/
theorem pushed_of_left {w : Waiter LatchId} (hw : w ∈ left c (notes f.seen)) :
    .pushed ((procedure m).token ⟨.leave w.id, some w.callback⟩) ∈ f.seen := by
  obtain ⟨before, n, rest, heq, hleft⟩ := mem_along.1 hw
  cases n with
  | removed id =>
    obtain ⟨hwaits, hid⟩ := List.mem_filter.1 hleft
    obtain ⟨d, hd, hr⟩ := hf.removed (.removed id) (by simp [heq]) ⟨⟨.leave id, none⟩, rfl⟩
    obtain ⟨⟨id', l, rfl⟩, hk, hp⟩ := hf.inv.given d hd
    obtain rfl : id = id' := hr
    cases hk with
    | leave hj =>
      have hjoined : w ∈ joined (notes f.seen) :=
        hf.inv.legal.1.flow.mem_iff.2 (List.mem_append_right _ hw)
      obtain rfl := hf.inv.legal.1.joined_eq hjoined hj (eq_of_beq hid)
      exact hp
  | _ => cases hleft

theorem fates : Fates m c t where
  state := by
    have ht : t.world.slots[m.id]? = some f.state := hS.state
    rw [ht, hS.seen, ← hf.inv.legal.2]
    rfl
  fits := by
    rw [hS.seen]
    exact hf.inv.legal.1.fits
  flow := by
    rw [hS.seen]
    exact hf.inv.legal.1.flow
  once := by
    rw [hS.seen]
    exact hf.inv.legal.1.ids_nodup
  one := by
    intro before before' rest rest' n n' x x' heq heq' hx hx' hsame
    rw [hS.seen] at heq heq'
    have hlen : before.length = before'.length :=
      Nat.le_antisymm (hf.inv.legal.1.serves_once heq' heq hx' hx hsame.symm)
        (hf.inv.legal.1.serves_once heq heq' hx hx' hsame)
    exact (List.append_inj (heq.symm.trans heq') hlen).1
  waiting := by
    intro w hw x hx
    rw [hS.seen] at hw hx
    exact hf.inv.legal.1.dues_waiters hw x (hf.inv.told_due hx)
  serving := by
    intro w notice hs
    rw [hS.seen] at hs ⊢
    have hd := Legal.served_due hs
    refine ⟨hf.inv.legal.1.meets _ hs, ?_, ?_⟩
    · intro x hx
      exact hf.inv.legal.1.dues_eq (hf.inv.told_due hx) hd
    · intro i q exit hl hq hw he
      exact ends_due hS hf (hS.seen ▸ hl) hq hw he hd
  leaving := by
    intro w hw
    rw [hS.seen] at hw ⊢
    have hd := Legal.left_due hw
    refine ⟨pushed_of_left hf hw, fun _ hs => hf.inv.legal.1.served_id_ne hs hw rfl, ?_, ?_⟩
    · intro x hx
      exact hf.inv.legal.1.dues_eq (hf.inv.told_due hx) hd
    · intro i q exit hl hq hwaits he
      exact ends_due hS hf (hS.seen ▸ hl) hq hwaits he hd
  undelivered := by
    intro w p hw hp hid
    rw [hS.seen] at hw hp
    have hplaced : Placed c (notes f.seen) p := by
      obtain hp | ⟨l, hp⟩ := hp
      · exact hf.inv.legal.1.held p hp
      · exact hf.inv.legal.1.sent hp
    obtain ⟨l, hs, -⟩ := hplaced w.id hid
    exact hf.inv.legal.1.served_id_ne hs hw rfl
  order := by
    intro before id rest heq
    rw [hS.seen] at heq
    have ha := Fits.at (heq ▸ hf.inv.legal.1.fits)
    obtain ⟨-, ha⟩ := Option.ite_none_right_eq_some.1 ha
    have hshelf := (Option.some.inj ha).symm
    refine ⟨hshelf, ?_⟩
    rw [hshelf, Contents.waiters_without]
  queued := by
    rw [hS.seen]
    exact hf.inv.legal.1.queued
  offers := by
    intro before who a rest heq
    rw [hS.seen] at heq
    exact Note.offered_apply (Fits.at (heq ▸ hf.inv.legal.1.fits))
  polls := by
    intro before who rest heq
    rw [hS.seen] at heq
    exact Note.polled_apply (Fits.at (heq ▸ hf.inv.legal.1.fits))
  kept := by
    intro before n rest p heq hp
    rw [hS.seen] at heq
    exact Note.held_kept (Fits.at (heq ▸ hf.inv.legal.1.fits)) hp
  looks := by
    intro before l rest heq
    rw [hS.seen] at heq
    have ha := Fits.at (heq ▸ hf.inv.legal.1.fits)
    obtain ⟨p, hp, hshelf⟩ := Option.map_eq_some_iff.1 ha
    refine ⟨hshelf.symm, p, hp, ?_⟩
    simp [Note.calls, Note.serves, Note.answers, hp]
  ends := by
    intro i q exit hq hw he
    rw [hS.seen]
    obtain ⟨hexit, hnone⟩ | ⟨l, hl, reply, hd, rfl⟩ := ending hS hf hq hw he
    · exact .inl ⟨hexit, fun l hl => hnone l (hS.seen ▸ hl)⟩
    · refine .inr ⟨l, hS.seen ▸ hl, ?_⟩
      obtain ⟨notice, hcalled, hreply⟩ | ⟨hreply, hleft⟩ := Legal.mem_dues hd
      · exact .inl ⟨notice, hcalled, by rw [Except.ok.inj hreply]; rfl⟩
      · exact .inr ⟨by rw [Except.ok.inj hreply]; rfl, hleft⟩
  told_once := by
    rw [hS.seen]
    exact hf.inv.told_once (keeps m c)
  told := by
    rw [hS.seen]
    exact hf.inv.told
  told_all := by
    intro hr
    rw [hS.seen]
    exact hf.inv.told_all (keeps m c) hS hr

end Parties

theorem legal_beginning (v : Option Value) (next : Nat) : Legal (beginning v) [] next := by
  cases v with
  | none => exact .nil _ rfl (fun p hp => by cases hp) next
  | some a =>
    refine .nil _ rfl ?_ next
    intro p hp
    obtain rfl := Option.some.inj hp
    rfl

/-- In whatever order those who wait, and those who cancel them, take their steps. -/
theorem waiters_meet_one_fate (m : MVar α) (v : Option Value) {w : World}
    (hw : w.slots[m.id]? = some (.new (beginning v).plain m.cancelable)) {t : Scene (Visit α) Note}
    (ht : Runs (subject m) (.start w) t) : Fates m (beginning v) t := by
  have hstart : Service.Stands (procedure m) (subject m) (.start (.new (beginning v).plain m.cancelable))
      (.start w) := .start hw
  have hholds : Holds m (beginning v) (.start (.new (beginning v).plain m.cancelable)) :=
    ⟨.start ⟨legal_beginning v _, rfl⟩ rfl rfl, fun n hn => absurd hn List.not_mem_nil⟩
  obtain ⟨f, hf, -, hS⟩ := hstart.runs (serves m) (kept m _) hholds ht
  exact fates hS hf

theorem waiters_meet_one_fate_of_removed :
    ∃ (m : MVar Nat) (v : Option Value) (w : World) (t : Scene (Visit Nat) Note),
      w.slots[m.id]? = some (.new (beginning v).plain m.cancelable) ∧
        Runs (subject m) (.start w) t ∧
        notes t.seen = [.queued 0 0 (.room (write 2)), .queued 1 1 (.room (write 3)), .removed 1,
          .polled (some 2)] ∧
        tolds t.seen = [(1, interrupted), (0, told .room), (2, told (.value (write 1)))] ∧
        Fates m (beginning v) t := by
  let v : Option Value := some (write 1)
  let w : World := { World.start with
    slots := #[.new (beginning v).plain true], connections := #[.uncancelable, .new, .new, .new] }
  let acts (i : Nat) (n : Nat) : List (Cue (Visit Nat)) := List.replicate n (.acts i)
  -- Two wait to put a value, the second one is canceled, and then the first value is taken.
  let cues := .asks (.put 2) 1 :: acts 0 6 ++ .asks (.put 3) 2 :: acts 1 6 ++
    .runs 5 :: acts 2 4 ++ .asks .take 3 :: acts 3 7
  have hrun : ((cues.foldlM (Scene.takes (subject ⟨0, true⟩) ⟨"caller", none⟩) (.start w)).map
      fun t => (notes t.seen, tolds t.seen)) =
        some ([.queued 0 0 (.room (write 2)), .queued 1 1 (.room (write 3)), .removed 1,
          .polled (some 2)], [(1, interrupted), (0, told .room), (2, told (.value (write 1)))]) := by
    cbv
  obtain ⟨t, ht, hseen⟩ := Option.map_eq_some_iff.1 hrun
  obtain ⟨hnotes, htolds⟩ := Prod.mk.inj hseen
  exact ⟨⟨0, true⟩, v, w, t, rfl, .takes ht, hnotes, htolds,
    waiters_meet_one_fate _ v rfl (.takes ht)⟩

end Effects.MVar.Queue
