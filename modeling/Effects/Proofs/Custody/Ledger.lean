import Effects.Proofs.Custody.Signs

/-!
A ledger of the tokens that have been pushed onto a connection, each under its number, the earlier
the smaller: where it is, or what has become of it.
-/

namespace Effects.Custody

/-- Tokens taken out together by a thread that cancels: those that have begun to run, and those that
have yet to. -/
structure Batch where
  thread : ThreadId
  depth : Nat
  ran : List Nat
  due : List Nat

def Batch.tickets (b : Batch) : List Nat := b.ran ++ b.due

structure Ledger where
  tokens : List Code
  /-- The connection, with the numbers of its tokens. -/
  kept : Connection Nat
  popped : List Nat
  late : List Nat
  batches : List Batch

namespace Ledger

variable {l l' l'' : Ledger}

def start (tokens : List Code) : Ledger :=
  ⟨tokens.reverse, .active (List.range tokens.length).reverse, [], [], []⟩

/-- The tokens with these numbers. -/
def Reads (l : Ledger) (tickets : List Nat) (tokens : List Code) : Prop :=
  tickets.map (l.tokens[·]?) = tokens.map some

/-- What a call, or a token's beginning, comes to. -/
inductive Follows (l : Ledger) : Sign → Ledger → Prop
  | pushed (token : Code) {ts : List Nat} (h : l.kept = .active ts) :
      Follows l (.pushed token)
        { l with tokens := l.tokens ++ [token], kept := .active (l.tokens.length :: ts) }
  | late (token : Code) (h : l.kept = .canceled) :
      Follows l (.late token)
        { l with tokens := l.tokens ++ [token], late := l.late ++ [l.tokens.length] }
  /-- It is the most recent of those that are still there. -/
  | popped {t : Nat} {ts : List Nat} {token : Code} (h : l.kept = .active (t :: ts))
      (ht : l.tokens[t]? = some token) (hts : ∀ t' ∈ ts, t' < t) :
      Follows l (.popped (some token)) { l with kept := .active ts, popped := l.popped ++ [t] }
  | nothing (h : l.kept.tokens = []) : Follows l (.popped none) l
  | swapped (i : ThreadId) (depth : Nat) {ts : List Nat} {tokens : List Code}
      (h : l.kept = .active ts) (ht : l.Reads ts tokens) :
      Follows l (.swapped i depth tokens)
        { l with
          kept := .canceled
          batches := l.batches ++ [⟨i, depth, ts.take 1, ts.drop 1⟩] }
  | again (i : ThreadId) (depth : Nat) (h : l.kept = .canceled) : Follows l (.swapped i depth []) l
  | next {i : ThreadId} {depth t : Nat} {ran ts : List Nat} {token : Code}
      {before after : List Batch} (h : l.batches = before ++ ⟨i, depth, ran, t :: ts⟩ :: after)
      (ht : l.tokens[t]? = some token) :
      Follows l (.next i depth token)
        { l with batches := before ++ ⟨i, depth, ran ++ [t], ts⟩ :: after }
  /-- A token of another connection begins. -/
  | other {i : ThreadId} {depth : Nat} (token : Code)
      (h : ∀ b ∈ l.batches, b.thread = i → b.depth = depth → b.due = []) :
      Follows l (.next i depth token) l
  | reactivated (h : l.kept = .canceled) :
      Follows l (.reactivated true) { l with kept := .active [] }
  | stays (h : l.kept ≠ .canceled) : Follows l (.reactivated false) l
  | asked {canceled : Bool} (h : l.kept.isCanceled = canceled) : Follows l (.asked canceled) l

inductive Replays : Ledger → List Sign → Ledger → Prop
  | nil (l : Ledger) : Replays l [] l
  | cons {l l' l'' : Ledger} {sign : Sign} {signs : List Sign} (h : Follows l sign l')
      (hs : Replays l' signs l'') : Replays l (sign :: signs) l''

theorem Replays.single {sign : Sign} (h : Follows l sign l') : Replays l [sign] l' :=
  .cons h (.nil l')

theorem Replays.append {seen more : List Sign} (h : Replays l seen l')
    (h' : Replays l' more l'') : Replays l (seen ++ more) l'' := by
  induction h with
  | nil => exact h'
  | cons h _ ih => exact .cons h (ih h')

theorem Follows.tokens {sign : Sign} (h : Follows l sign l') :
    l'.tokens = l.tokens ++ sign.brought.toList := by
  cases h <;> simp [Sign.brought]

theorem Replays.tokens {seen : List Sign} (h : Replays l seen l') :
    l'.tokens = l.tokens ++ seen.filterMap Sign.brought := by
  induction h with
  | nil => simp
  | @cons l l' l'' sign seen hf _ ih =>
    rw [ih, hf.tokens, List.append_assoc]
    cases hs : sign.brought <;> simp [hs]

/-- The numbers by what has become of the tokens: they are on the stack, or have been returned by a
pop, run by their push, or taken out by a cancel. -/
def all (l : Ledger) : List Nat :=
  l.kept.tokens ++ (l.popped ++ (l.late ++ l.batches.flatMap Batch.tickets))

/-- Each token has met one fate, and those of one stack the later before the earlier. -/
structure Fates (l : Ledger) : Prop where
  one : l.all.Perm (List.range l.tokens.length)
  recent : l.kept.tokens.Pairwise (· > ·)
  order : ∀ b ∈ l.batches, b.tickets.Pairwise (· > ·)

theorem start_fates (tokens : List Code) : (start tokens).Fates where
  one := by simp [all, start, Connection.tokens, List.reverse_perm]
  recent := by
    simpa [start, Connection.tokens, List.pairwise_reverse] using List.pairwise_lt_range
  order := fun _ h => absurd h List.not_mem_nil

namespace Fates

theorem lt_length (h : l.Fates) {t : Nat} (ht : t ∈ l.kept.tokens) : t < l.tokens.length :=
  List.mem_range.1 (h.one.mem_iff.1 (List.mem_append_left _ ht))

theorem follows (h : l.Fates) {sign : Sign} (hs : Follows l sign l') : l'.Fates := by
  obtain ⟨tokens, kept, popped, late, batches⟩ := l
  cases hs with
  | @pushed token ts hk =>
    obtain rfl : kept = .active ts := hk
    refine ⟨?_, ?_, h.order⟩
    · have hone := (h.one.cons tokens.length).trans (List.perm_append_singleton _ _).symm
      simpa [all, Connection.tokens, List.range_succ] using hone
    · exact List.pairwise_cons.2 ⟨fun t ht => h.lt_length ht, h.recent⟩
  | late token hk =>
    obtain rfl : kept = .canceled := hk
    refine ⟨?_, h.recent, h.order⟩
    -- each number is counted as often as before, wherever it has been moved to
    have hone := List.perm_iff_count.1 h.one
    refine List.perm_iff_count.2 fun t => ?_
    specialize hone t
    simp only [all, Connection.tokens, List.count_append, List.count_nil, List.length_append,
      List.length_singleton, List.range_succ] at hone ⊢
    omega
  | @popped t ts token hk _ _ =>
    obtain rfl : kept = .active (t :: ts) := hk
    refine ⟨?_, (List.pairwise_cons.1 h.recent).2, h.order⟩
    have hone := List.perm_iff_count.1 h.one
    refine List.perm_iff_count.2 fun t' => ?_
    specialize hone t'
    simp only [all, Connection.tokens, List.count_append, List.count_cons, List.count_nil]
      at hone ⊢
    omega
  | nothing | again | other | stays | asked => exact h
  | @swapped i depth ts tokens hk ht =>
    obtain rfl : kept = .active ts := hk
    have htickets : Batch.tickets ⟨i, depth, ts.take 1, ts.drop 1⟩ = ts :=
      List.take_append_drop 1 ts
    refine ⟨?_, .nil, fun b hb => ?_⟩
    · have hone := List.perm_iff_count.1 h.one
      refine List.perm_iff_count.2 fun t => ?_
      specialize hone t
      simp only [all, Connection.tokens, List.count_append, List.count_nil, List.flatMap_append,
        List.flatMap_cons, List.flatMap_nil, htickets] at hone ⊢
      omega
    · obtain hb | hb := List.mem_append.1 hb
      · exact h.order b hb
      · rw [List.mem_singleton.1 hb, htickets]
        exact h.recent
  | @next i depth t ran ts token before after hb ht =>
    obtain rfl : batches = before ++ ⟨i, depth, ran, t :: ts⟩ :: after := hb
    have htickets : Batch.tickets ⟨i, depth, ran ++ [t], ts⟩ =
        Batch.tickets ⟨i, depth, ran, t :: ts⟩ := List.append_assoc ran [t] ts
    refine ⟨?_, h.recent, fun b hb => ?_⟩
    · simpa only [all, List.flatMap_append, List.flatMap_cons, htickets] using h.one
    · obtain hb | rfl | hb := List.mem_append.1 hb |>.imp_right List.mem_cons.1
      · exact h.order b (List.mem_append_left _ hb)
      · rw [htickets]
        exact h.order _ (List.mem_append_right _ List.mem_cons_self)
      · exact h.order b (List.mem_append_right _ (List.mem_cons_of_mem _ hb))
  | reactivated hk =>
    obtain rfl : kept = .canceled := hk
    exact ⟨h.one, .nil, h.order⟩

theorem replays (h : l.Fates) {seen : List Sign} (hs : Replays l seen l') : l'.Fates := by
  induction hs with
  | nil => exact h
  | cons hf _ ih => exact ih (h.follows hf)

end Fates
end Ledger
end Effects.Custody
