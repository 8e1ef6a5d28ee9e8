import Mathlib.Data.List.Permutation
import Effects.Proofs.Promise.Ordered
import Effects.Proofs.Service.Runs

/-!
What all calls of a promise come to, in whatever order their steps are made: it is resolved once,
whoever waits for it is told of that once, and whoever leaves is not.
-/

namespace Effects.Promise

open Service History

variable {ε α : Type} [Datum ε] [Datum α] {p : Promise ε α} {f : PromiseFloor} {i j : Nat}
  {t u : Scene (Ask ε α) Note} {q : Party (Ask ε α)} {r : Except ε α}

/-- Asks for that resolution. -/
def Resolves (q : Party (Ask ε α)) (r : Except ε α) : Prop :=
  q.call = some (.resolve r) ∨ q.call = some (.tryResolve r)

/-- The call has resolved the promise, and says so. -/
def Succeeds (q : Party (Ask ε α)) (r : Except ε α) : Prop :=
  (q.call = some (.resolve r) ∧ q.Gives (Effect.pure () : Effect PromiseError Unit).node) ∨
    (q.call = some (.tryResolve r) ∧ q.Gives (Effect.pure true : Effect ε Bool).node)

/-- The call has come too late, and says so. -/
def Fails (q : Party (Ask ε α)) (r : Except ε α) : Prop :=
  (q.call = some (.resolve r) ∧
      q.Gives (Effect.raise .alreadyFulfilled : Effect PromiseError Unit).node) ∨
    (q.call = some (.tryResolve r) ∧ q.Gives (Effect.pure false : Effect ε Bool).node)

/-- What a look at the promise gives. -/
def looking (r : Option (Except ε α)) : Node :=
  (Effect.pure r : Effect ε (Option (Except ε α))).node

/-- Nothing changes any more: those who ask from now on find that resolution. -/
structure Final (p : Promise ε α) (r : Except ε α) (t u : Scene (Ask ε α) Note) : Prop where
  state : u.world.promises[p.id]? = t.world.promises[p.id]?
  resolutions : resolutions (notes u.seen) = [written r]
  looks : ∀ {i : Nat} {q : Party (Ask ε α)} {n}, t.parties.length ≤ i → u.parties[i]? = some q → q.call = some .tryGet →
    q.Gives n → n = looking (some r)

structure Settled (p : Promise ε α) (t : Scene (Ask ε α) Note) : Prop where
  /-- The promise is as its history says: with no queue once it is resolved. -/
  state : (t.world.promises[p.id]?).map (·.state) = some (History.state (notes t.seen))
  once : (resolutions (notes t.seen)).length ≤ 1
  winner : ∀ {i j : Nat} {q q' : Party (Ask ε α)} {r r'}, t.parties[i]? = some q → t.parties[j]? = some q' →
    Succeeds q r → Succeeds q' r' → i = j
  resolves : ∀ {i : Nat} {q : Party (Ask ε α)} {r n}, t.parties[i]? = some q → Resolves q r → q.Gives n →
    (Succeeds q r ∧ resolutions (notes t.seen) = [written r]) ∨
      (Fails q r ∧ ∃ r₀ : Except ε α, resolutions (notes t.seen) = [written r₀])
  final : ∀ {r : Except ε α} {u}, resolutions (notes t.seen) = [written r] →
    Runs (subject p) t u → Final p r t u
  /-- A wait ends with the resolution, or as it was given up before or after it was queued. -/
  ends : ∀ {i : Nat} {q : Party (Ask ε α)} {exit}, t.parties[i]? = some q → q.call = some .get → q.Ends exit →
    (∃ r : Except ε α, resolutions (notes t.seen) = [written r] ∧ exit = .ofExcept (written r)) ∨
      (exit = .canceled ∧ ((∀ l, .opened i l ∉ t.seen) ∨
        ∃ id l, .opened i l ∈ t.seen ∧ .queued id l ∈ notes t.seen ∧ .removed id ∈ notes t.seen))
  looks : ∀ {i : Nat} {q : Party (Ask ε α)} {n}, t.parties[i]? = some q → q.call = some .tryGet → q.Gives n →
    n = looking (none : Option (Except ε α)) ∨
      ∃ r : Except ε α, resolutions (notes t.seen) = [written r] ∧ n = looking (some r)
  /-- Those who were queued are told one after the other, in the order in which they came. -/
  notified : ∀ {before r after}, notes t.seen = before ++ .resolved r :: after →
    heard before (tolds t.seen) <+: notices before r
  notified_all : ∀ {before r after} {i : Nat} {q : Party (Ask ε α)} {r₀},
    notes t.seen = before ++ .resolved r :: after →
    t.parties[i]? = some q → Succeeds q r₀ → heard before (tolds t.seen) = notices before r
  /-- Nobody is told twice. -/
  told_once : ((tolds t.seen).map (·.1)).Nodup
  /-- Everybody is told what is due, and nothing else, once all calls have been through. -/
  told : (tolds t.seen).Subperm (settled (notes t.seen))
  told_all : (∀ q ∈ t.parties, q.Rests) → (tolds t.seen).Perm (settled (notes t.seen))
  /-- A getter is removed by its own token. -/
  token : ∀ {id}, .removed id ∈ notes t.seen → ∃ l, .queued id l ∈ notes t.seen ∧
    .pushed ((procedure p).token (.leave id l)) ∈ t.seen
  /-- Whoever has been removed is interrupted, and not told of any resolution. -/
  removed : ∀ {id l}, .queued id l ∈ notes t.seen → .removed id ∈ notes t.seen →
    (∀ {r}, .told l r ∈ t.seen → r = interrupted) ∧
      ∀ {i : Nat} {q : Party (Ask ε α)} {exit}, .opened i l ∈ t.seen → t.parties[i]? = some q → q.call = some .get →
        q.Ends exit → exit = .canceled

theorem mem_joined {h : History} {id : Nat} {l : LatchId} :
    ⟨id, l⟩ ∈ h.joined ↔ .queued id l ∈ h := by
  rw [joined, List.mem_filterMap]
  constructor
  · rintro ⟨n, hn, heq⟩
    cases n with
    | queued id' l' =>
      obtain ⟨rfl, rfl⟩ := Joiner.mk.inj (Option.some.inj heq)
      exact hn
    | _ => cases heq
  · intro hn
    exact ⟨_, hn, rfl⟩

theorem mem_removed {h : History} {id : Nat} : id ∈ h.removed ↔ .removed id ∈ h := by
  rw [History.removed, List.mem_filterMap]
  constructor
  · rintro ⟨n, hn, heq⟩
    cases n with
    | removed id' =>
      obtain rfl := Option.some.inj heq
      exact hn
    | _ => cases heq
  · intro hn
    exact ⟨_, hn, rfl⟩

/-- After the resolution nobody is queued, and nobody leaves. -/
theorem History.Legal.waiting_before {h : History} {next : Nat} (hh : Legal h next)
    {before after : History} {r : Resolution} (heq : h = before ++ .resolved r :: after) :
    h.waiting = before.waiting := by
  have hj : joined after = [] := by
    rw [joined, List.filterMap_eq_nil_iff]
    intro n hn
    obtain ⟨l, rfl⟩ := hh.final heq n hn
    rfl
  have hr : History.removed after = [] := by
    rw [History.removed, List.filterMap_eq_nil_iff]
    intro n hn
    obtain ⟨l, rfl⟩ := hh.final heq n hn
    rfl
  have hjoined : h.joined = before.joined := by
    rw [heq, joined_append]
    exact (congrArg (before.joined ++ ·) hj).trans (List.append_nil _)
  have hremoved : h.removed = before.removed := by
    rw [heq, removed_append]
    exact (congrArg (before.removed ++ ·) hr).trans (List.append_nil _)
  rw [waiting, waiting, hjoined, hremoved]

theorem History.Legal.resolutions_eq {h : History} {next : Nat} (hh : Legal h next)
    {r : Resolution} (hr : .resolved r ∈ h) : h.resolutions = [r] := by
  have hm : r ∈ h.resolutions := List.mem_filterMap.2 ⟨_, hr, rfl⟩
  obtain ⟨r', hr'⟩ := List.length_eq_one_iff.1
    (Nat.le_antisymm hh.once (List.length_pos_iff.2 (List.ne_nil_of_mem hm)))
  rw [hr'] at hm ⊢
  rw [List.mem_singleton.1 hm]

/-- Whoever has been removed has nothing due but the interruption. -/
theorem History.Legal.dues_removed {h : History} {next : Nat} (hh : Legal h next) {id : Nat}
    {l : LatchId} (hq : ⟨id, l⟩ ∈ h.joined) (hm : id ∈ h.removed) {r : Except String Reply}
    (hd : (l, r) ∈ h.dues) : r = interrupted := by
  obtain ⟨x, -, -, hl | hl⟩ | ⟨hr, -⟩ := hh.mem_dues.1 hd
  · obtain ⟨k, hk, he⟩ := List.mem_map.1 hl
    obtain rfl := hh.callback_eq (mem_waiting.1 hk).1 hq he
    exact absurd hm (mem_waiting.1 hk).2
  · exact absurd rfl
      ((List.nodup_append.1 hh.callbacks_nodup).2.2 l (List.mem_map_of_mem hq) l hl)
  · exact hr

theorem read_written (r : Except ε α) :
    (looked (.resolution (some (written r)))).map (fun
      | .ok v => .ok (read v)
      | .error e => .error (read e)) = some r := by
  cases r <;> simp [looked, written, Except.map, Except.mapError, Datum.read_write]

omit [Datum ε] in
theorem pure_true_ne :
    (Effect.pure true : Effect ε Bool).node ≠ (Effect.pure false : Effect ε Bool).node := by
  intro h
  have hw : (write true : Value) = write false := Node.pure.inj h
  have hread := congrArg (read : Value → Bool) hw
  simp [Datum.read_write] at hread

/-- The promise has been resolved as somebody asked. -/
theorem Holds.typed_resolution (hf : Holds p f) {x : Resolution}
    (hx : resolutions (notes f.seen) = [x]) : ∃ r : Except ε α, x = written r := by
  obtain ⟨i, next, hi, -⟩ := hf.ordered.winner x (by simp [hx])
  exact hf.typed hi

section Parties

variable (hS : Service.Stands (procedure p) (subject p) f t) (hf : Holds p f)

include hS hf

/-- What a resolving call gives is what it has done. -/
theorem resolving {n : Node} (hq : t.parties[i]? = some q) (hr : Resolves q r) (hg : q.Gives n) :
    ∃ a, f.agents[i]? = some (.at (.resolve (written r)) (.inr a)) ∧
      ((a = .flag true ∧ Succeeds q r ∧ resolutions (notes t.seen) = [written r]) ∨
        (a = .flag false ∧ Fails q r ∧
          ∃ r₀ : Except ε α, resolutions (notes t.seen) = [written r₀])) := by
  have hreports : ∀ {a : Reported}, f.agents[i]? = some (.at (.resolve (written r)) (.inr a)) →
      (a = .flag true ∧ resolutions (notes t.seen) = [written r]) ∨
        (a = .flag false ∧ ∃ r₀ : Except ε α, resolutions (notes t.seen) = [written r₀]) := by
    intro a ha
    rw [hS.seen]
    have hs : Reports (notes f.seen) (.resolve (written r)) a := (hf.inv.agents ha).2
    cases hs with
    | won hr => exact .inl ⟨rfl, hr⟩
    | lost hr =>
      obtain ⟨r₀, rfl⟩ := hf.typed_resolution hr
      exact .inr ⟨rfl, r₀, hr⟩
  obtain hcall | hcall := hr
  · obtain ⟨a, ha, hn⟩ := hS.gives hq hcall rfl hg
    obtain rfl := Code.build.inj hn
    refine ⟨a, ha, ?_⟩
    obtain ⟨rfl, hres⟩ | ⟨rfl, hres⟩ := hreports ha
    · exact .inl ⟨rfl, .inl ⟨hcall, hg⟩, hres⟩
    · exact .inr ⟨rfl, .inl ⟨hcall, hg⟩, hres⟩
  · obtain ⟨a, ha, hn⟩ := hS.gives hq hcall rfl hg
    obtain rfl := Code.build.inj hn
    refine ⟨a, ha, ?_⟩
    obtain ⟨rfl, hres⟩ | ⟨rfl, hres⟩ := hreports ha
    · exact .inl ⟨rfl, .inr ⟨hcall, hg⟩, hres⟩
    · exact .inr ⟨rfl, .inr ⟨hcall, hg⟩, hres⟩

/-- Whoever says that the promise was resolved by it has done it. -/
theorem succeeding (hq : t.parties[i]? = some q) (hs : Succeeds q r) :
    f.agents[i]? = some (.at (.resolve (written r)) (.inr (.flag true))) := by
  obtain ⟨hr, n, hg, hne⟩ : Resolves q r ∧ ∃ n, q.Gives n ∧ ¬ Fails q r := by
    obtain ⟨hcall, hg⟩ | ⟨hcall, hg⟩ := hs
    · refine ⟨.inl hcall, _, hg, ?_⟩
      rintro (⟨-, hg'⟩ | ⟨hcall', -⟩)
      · cases hg.symm.trans hg'
      · cases hcall.symm.trans hcall'
    · refine ⟨.inr hcall, _, hg, ?_⟩
      rintro (⟨hcall', -⟩ | ⟨-, hg'⟩)
      · cases hcall.symm.trans hcall'
      · refine pure_true_ne (ε := ε) ?_
        have hsame := hg.symm.trans hg'
        exact Code.build.inj (Control.code.inj (Activity.mk.inj hsame).1)
  obtain ⟨a, ha, ⟨rfl, -⟩ | ⟨-, hfails, -⟩⟩ := resolving hS hf hq hr hg
  · exact ha
  · exact absurd hfails hne

theorem looking_of {n : Node} (hq : t.parties[i]? = some q) (hcall : q.call = some .tryGet)
    (hg : q.Gives n) :
    (f.agents[i]? = some (.at .tryGet (.inr (.resolution none))) ∧
        n = looking (none : Option (Except ε α))) ∨
      ∃ r : Except ε α, f.agents[i]? = some (.at .tryGet (.inr (.resolution (some (written r))))) ∧
        resolutions (notes f.seen) = [written r] ∧ n = looking (some r) := by
  obtain ⟨a, ha, hn⟩ := hS.gives hq hcall rfl hg
  obtain rfl := Code.build.inj hn
  have hs : Reports (notes f.seen) .tryGet a := (hf.inv.agents ha).2
  cases hs with
  | nothing => exact .inl ⟨ha, rfl⟩
  | found hr =>
    obtain ⟨r₀, rfl⟩ := hf.typed_resolution hr
    exact .inr ⟨r₀, ha, hr, congrArg looking (read_written r₀)⟩

theorem ending {exit : Exit} (hq : t.parties[i]? = some q) (hcall : q.call = some .get)
    (he : q.Ends exit) :
    (exit = .canceled ∧ ∀ l, .opened i l ∉ t.seen) ∨
      ∃ l, .opened i l ∈ t.seen ∧ (l, .ok (.outcome exit)) ∈ dues (notes f.seen) := by
  obtain hnone | ⟨l, reply, hl, hfirst, rfl⟩ := hS.ends hq hcall rfl he
  · exact .inl hnone
  · rw [hS.seen] at hfirst
    have hdue := hf.inv.first_due hfirst
    refine .inr ⟨l, hl, ?_⟩
    obtain ⟨x, -, hx, -⟩ | ⟨hx, -⟩ := hf.inv.legal.1.mem_dues.1 hdue
    · obtain rfl := Except.ok.inj hx
      exact hdue
    · obtain rfl := Except.ok.inj hx
      exact hdue

theorem final_of {u : Scene (Ask ε α) Note}
    (hr : resolutions (notes t.seen) = [written r]) (hu : Runs (subject p) t u) :
    Final p r t u := by
  rw [hS.seen] at hr
  have hlater : Later p t.parties.length f.state (written r) f := by
    refine ⟨hf, rfl, hr, ?_⟩
    intro i next hn hi
    exact absurd (List.getElem?_eq_some_iff.1 hi).1 (by rw [hS.length]; omega)
  obtain ⟨f', hf', -, hS'⟩ := hS.runs (serves p) (later p _ _ _) hlater hu
  refine ⟨?_, ?_, ?_⟩
  · have ht : t.world.promises[p.id]? = some f.state := hS.state
    have hu : u.world.promises[p.id]? = some f'.state := hS'.state
    rw [ht, hu, hf'.state]
  · rw [hS'.seen]
    exact hf'.resolved
  · intro i q n hn hq hcall hg
    obtain ⟨ha, -⟩ | ⟨r', ha, -, rfl⟩ := looking_of hS' hf'.holds hq hcall hg
    · obtain h | h := hf'.looks hn ha
      · cases h
      · cases h
    · have hres := (looking_of hS' hf'.holds hq hcall hg).resolve_left (fun h => by
        obtain h' | h' := hf'.looks hn h.1 <;> cases h')
      obtain ⟨r'', -, hr'', hn''⟩ := hres
      obtain heq := List.singleton_inj.1 (hr''.symm.trans hf'.resolved)
      rw [hn'']
      have hsame : some r'' = some r := by rw [← read_written r'', heq, read_written r]
      rw [hsame]

theorem settles : Settled p t where
  state := by
    have ht : t.world.promises[p.id]? = some f.state := hS.state
    rw [ht, hS.seen, ← hf.inv.legal.2]
    rfl
  once := by
    rw [hS.seen]
    exact hf.inv.legal.1.once
  winner := by
    intro i j q q' r r' hi hj hs hs'
    exact hf.ordered.only (succeeding hS hf hi hs) (succeeding hS hf hj hs') rfl rfl
  resolves := by
    intro i q r n hq hr hg
    obtain ⟨a, -, ⟨-, h⟩ | ⟨-, h⟩⟩ := resolving hS hf hq hr hg
    · exact .inl h
    · exact .inr h
  final := final_of hS hf
  ends := by
    intro i q exit hq hcall he
    obtain ⟨hexit, hnone⟩ | ⟨l, hl, hdue⟩ := ending hS hf hq hcall he
    · exact .inr ⟨hexit, .inl hnone⟩
    · rw [hS.seen]
      obtain ⟨x, hx, hreply, -⟩ | ⟨hreply, hleft⟩ := hf.inv.legal.1.mem_dues.1 hdue
      · have hres := hf.inv.legal.1.resolutions_eq (by
          obtain ⟨n, hn, heq⟩ := List.mem_filterMap.1 hx
          cases n with
          | resolved x' =>
            obtain rfl := Option.some.inj heq
            exact hn
          | _ => cases heq)
        obtain ⟨r, rfl⟩ := hf.typed_resolution hres
        exact .inl ⟨r, hres, Reply.outcome.inj (Except.ok.inj hreply)⟩
      · obtain ⟨k, hk, rfl⟩ := List.mem_map.1 hleft
        obtain ⟨hj, hr⟩ := List.mem_filter.1 hk
        refine .inr ⟨Reply.outcome.inj (Except.ok.inj hreply), .inr ⟨k.id, k.callback, ?_, ?_, ?_⟩⟩
        · exact hS.seen ▸ hl
        · exact mem_joined.1 hj
        · exact mem_removed.1 (List.contains_iff_mem.1 hr)
  looks := by
    intro i q n hq hcall hg
    rw [hS.seen]
    obtain ⟨-, hn⟩ | ⟨r, -, hr, hn⟩ := looking_of hS hf hq hcall hg
    · exact .inl hn
    · exact .inr ⟨r, hr, hn⟩
  notified := by
    intro before r after heq
    rw [hS.seen] at heq ⊢
    have hm : r ∈ resolutions (notes f.seen) := by
      rw [hf.inv.legal.1.resolutions_eq (r := r) (by simp [heq])]
      exact List.mem_singleton_self r
    obtain ⟨i, next, hi, hw⟩ := hf.ordered.winner r hm
    have hwaiting := hf.inv.legal.1.waiting_before heq
    have horder := hf.ordered.order hi hw
    rw [heard_congr hwaiting.symm, notices_congr hwaiting.symm, ← horder]
    exact List.prefix_append _ _
  notified_all := by
    intro before r after i q r₀ heq hq hs
    have hi := succeeding hS hf hq hs
    rw [hS.seen] at heq ⊢
    have hres := hf.inv.legal.1.resolutions_eq (r := r) (by simp [heq])
    have hwon : Reports (notes f.seen) (.resolve (written r₀)) (.flag true) := (hf.inv.agents hi).2
    obtain rfl : written r₀ = r := by
      cases hwon with
      | won hr => exact List.singleton_inj.1 (hr.symm.trans hres)
    have hwaiting := hf.inv.legal.1.waiting_before heq
    have horder := hf.ordered.order hi rfl
    rw [heard_congr hwaiting.symm, notices_congr hwaiting.symm, ← horder]
    exact (List.append_nil _).symm
  told_once := by
    rw [hS.seen]
    exact hf.inv.told_once (keeps p)
  told := by
    rw [hS.seen]
    exact hf.inv.told.trans hf.inv.legal.1.dues_perm.subperm
  told_all := by
    intro hr
    rw [hS.seen]
    exact (hf.inv.told_all (keeps p) hS hr).trans hf.inv.legal.1.dues_perm
  token := by
    intro id hm
    rw [hS.seen] at hm ⊢
    obtain ⟨d, hd, hr⟩ := hf.removed _ hm ⟨.leave id 0, rfl⟩
    obtain ⟨⟨id', l, rfl⟩, hk, hp⟩ := hf.inv.given d hd
    obtain rfl : id = id' := hr
    exact ⟨l, mem_joined.1 hk, hp⟩
  removed := by
    intro id l hqueued hremoved
    rw [hS.seen] at hqueued hremoved ⊢
    have hq := mem_joined.2 hqueued
    have hm := mem_removed.2 hremoved
    refine ⟨fun htold => hf.inv.legal.1.dues_removed hq hm (hf.inv.told_due htold), ?_⟩
    intro i q exit hl hparty hcall he
    obtain ⟨-, hnone⟩ | ⟨l', hl', hdue⟩ := ending hS hf hparty hcall he
    · exact absurd (hS.seen ▸ hl) (hnone l)
    · obtain rfl := hS.single (hS.seen ▸ hl') hl
      exact Reply.outcome.inj (Except.ok.inj (hf.inv.legal.1.dues_removed hq hm hdue))

end Parties

/-- In whatever order its callers, and those who cancel them, take their steps. -/
theorem calls_settle (p : Promise ε α) {w : World}
    (hw : w.promises[p.id]? = some (.new p.cancelable)) {t : Scene (Ask ε α) Note}
    (ht : Runs (subject p) (.start w) t) : Settled p t := by
  have hstart : Service.Stands (procedure p) (subject p) (.start (.new p.cancelable)) (.start w) :=
    .start hw
  obtain ⟨f, hf, -, hS⟩ := hstart.runs (serves p) (kept p) (.start rfl) ht
  exact settles hS hf

theorem calls_settle_of_removed :
    ∃ (p : Promise Nat Nat) (w : World) (t : Scene (Ask Nat Nat) Note),
      w.promises[p.id]? = some (.new p.cancelable) ∧ Runs (subject p) (.start w) t ∧
        notes t.seen = [.queued 0 0, .queued 1 1, .removed 1, .resolved (.ok (write 7))] ∧
        tolds t.seen = [(1, interrupted), (0, told (.ok (write 7)))] ∧ Settled p t := by
  let w : World :=
    { World.start with promises := #[.new true], connections := #[.uncancelable, .new, .new] }
  let acts (i : Nat) (n : Nat) : List (Cue (Ask Nat Nat)) := List.replicate n (.acts i)
  -- Two wait, one of them is canceled, and then the promise is resolved.
  let cues := .asks .get 1 :: acts 0 6 ++ .asks .get 2 :: acts 1 6 ++
    .runs 5 :: acts 2 4 ++ .asks (.tryResolve (.ok 7)) 0 :: acts 3 4
  have hrun : ((cues.foldlM (Scene.takes (subject ⟨0, true⟩) ⟨"caller", none⟩) (.start w)).map
      fun t => (notes t.seen, tolds t.seen)) =
        some ([.queued 0 0, .queued 1 1, .removed 1, .resolved (.ok (write 7))],
          [(1, interrupted), (0, told (.ok (write 7)))]) := by
    cbv
  obtain ⟨t, ht, hseen⟩ := Option.map_eq_some_iff.1 hrun
  obtain ⟨hnotes, htolds⟩ := Prod.mk.inj hseen
  exact ⟨⟨0, true⟩, w, t, rfl, .takes ht, hnotes, htolds, calls_settle _ rfl (.takes ht)⟩

end Effects.Promise
