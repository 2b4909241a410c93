import Mathlib
import FrameCache.Proofs.Stepping
import FrameCache.Store.Fetch

/-!
# The questions of a fetch in steps

A fetch with a step walks its window one chunk after another and asks the source only for the
part of each chunk that neither an earlier chunk nor the rows of an earlier answer covered.
Whatever the source answers, the questions it is asked have this shape (`Fetch.Stepped`): every
window ends a whole number of steps after the start, at a step that began before the end; the
first window starts at the start; every window is non-empty; and every window starts at or
after the end of each earlier window and of the rows each earlier answer brought. When the
fetch succeeds, the windows and the rows of their answers leave no instant of the window
uncovered (`Fetch.Covers`), and outside leap seconds there are at most as many questions as
steps fit in the window.

The proof follows the loop. `WalkInv` is what holds at the top of each round, with `j` rounds
done; one round either passes over a chunk already covered (`WalkInv.skip`) or asks for the
rest of it (`WalkInv.call`), and `walk_run` carries the invariant through every run, failed or
not, by induction on the walk's fuel. The fuel never ends the walk early: it is enough steps
to pass any end (`Timestamp.stop_le_advance_stepBound`), and more fuel changes nothing
(`walk_fuel_eq`), so the loop the walk stands for ends by itself. The count of questions
(`Stepped.length_le`) needs both ends outside leap seconds: from inside one, the span `since`
counts the leap second out while the walk still steps through it.
-/

namespace FrameCache

namespace Fetch

/-- Where the rows answered to a question for the window ending at `ce` end: the latest
timestamp of a non-empty frame, and otherwise the end of the window. -/
def answerEnd (a : Except CacheError (Option Frame)) (ce : Timestamp) : Timestamp :=
  match a with
  | .ok (some f) => if f.isEmpty then ce else latest f ce
  | _ => ce

/-- The questions `ws`, asked as the `n`-th and the following ones, each with where the rows of
its answer end. -/
def answered (q : Query) : Nat → List (Timestamp × Timestamp) → List ((Timestamp × Timestamp) × Timestamp)
  | _, [] => []
  | n, w :: ws => (w, answerEnd (q n w.1 w.2) w.2) :: answered q (n + 1) ws

/-- The state a run ends in, whether it succeeded or failed. -/
def endState {ε σ α : Type} : EStateM.Result ε σ α → σ
  | .ok _ s => s
  | .error _ s => s

/-- The questions a run from `s` asked, each with where the rows of its answer end. -/
def askedDuring (q : Query) (s : FetchState) (r : EStateM.Result CacheError FetchState α) :
    List ((Timestamp × Timestamp) × Timestamp) :=
  answered q s.calls.size ((endState r).calls.toList.drop s.calls.size)

theorem answered_append (q : Query) (n : Nat) (ws : List (Timestamp × Timestamp)) (w : Timestamp × Timestamp) :
    answered q n (ws ++ [w]) = answered q n ws ++ [(w, answerEnd (q (n + ws.length) w.1 w.2) w.2)] := by
  induction ws generalizing n with
  | nil => rfl
  | cons v ws ih =>
    simp only [List.cons_append, answered, ih, List.length_cons, List.cons.injEq, true_and]
    rw [Nat.add_assoc, Nat.add_comm 1]

@[simp] theorem length_answered (q : Query) (n : Nat) (ws : List (Timestamp × Timestamp)) :
    (answered q n ws).length = ws.length := by
  induction ws generalizing n with
  | nil => rfl
  | cons v ws ih => simp [answered, ih]

section Shape

variable (start stop : Timestamp) (step : TimeDelta)

/-- The shape of the questions of a walk from `start` to `stop` by `step`, each with where the
rows of its answer end. -/
structure Stepped (log : List ((Timestamp × Timestamp) × Timestamp)) : Prop where
  /-- Each window ends a whole number of steps after the start, these numbers grow, and the
  step that ends a window began before the end. -/
  onGrid : ∃ js : List Nat, js.length = log.length ∧ js.Pairwise (· < ·) ∧
    ∀ p ∈ js.zip log, 0 < p.1 ∧ start.advance step p.1 = some p.2.1.2 ∧
      ∃ u, start.advance step (p.1 - 1) = some u ∧ u < stop
  /-- The first window starts at the start. -/
  first : ∀ a ∈ log.head?, a.1.1 = start
  /-- Every window is non-empty. -/
  nonempty : ∀ a ∈ log, a.1.1 < a.1.2
  /-- Every window starts at or after the end of each earlier window and of its answer's rows. -/
  fresh : log.Pairwise fun a b => a.1.2 ≤ b.1.1 ∧ a.2 ≤ b.1.1

/-- Every instant from the start up to the end lies in a window asked for or in the rows its
answer brought. -/
def Covers (log : List ((Timestamp × Timestamp) × Timestamp)) : Prop :=
  ∀ u, start ≤ u → u < stop → ∃ a ∈ log, a.1.1 ≤ u ∧ u < a.1.2.later a.2

/-- What holds at the top of a round of the walk, after `j` rounds, at `t` with the rows
fetched so far ending at `last`. -/
structure WalkInv (j : Nat) (t last : Timestamp) (log : List ((Timestamp × Timestamp) × Timestamp))
    (js : List Nat) : Prop where
  clock : start.advance step j = some t
  fresh_start : log = [] → j = 0 ∧ last = start
  first : ∀ a ∈ log.head?, a.1.1 = start
  length : js.length = log.length
  increasing : js.Pairwise (· < ·)
  below : ∀ i ∈ js, i ≤ j
  grid : ∀ p ∈ js.zip log, 0 < p.1 ∧ start.advance step p.1 = some p.2.1.2 ∧
    ∃ u, start.advance step (p.1 - 1) = some u ∧ u < stop
  nonempty : ∀ a ∈ log, a.1.1 < a.1.2
  fresh : log.Pairwise fun a b => a.1.2 ≤ b.1.1 ∧ a.2 ≤ b.1.1
  bounded : ∀ a ∈ log, a.1.2 ≤ t.later last ∧ a.2 ≤ t.later last
  covered : ∀ u, start ≤ u → u < t.later last → ∃ a ∈ log, a.1.1 ≤ u ∧ u < a.1.2.later a.2

variable {start stop step}

theorem WalkInv.init : WalkInv start stop step 0 start start [] [] where
  clock := rfl
  fresh_start _ := ⟨rfl, rfl⟩
  first := by simp
  length := rfl
  increasing := .nil
  below := by simp
  grid := by simp
  nonempty := by simp
  fresh := .nil
  bounded := by simp
  covered u hs hu := absurd (lt_of_le_of_lt hs hu) (by simp [Timestamp.later])

variable {j : Nat} {t last ce : Timestamp} {log : List ((Timestamp × Timestamp) × Timestamp)}
  {js : List Nat}

/-- A round that passes over a chunk the rows fetched so far cover keeps the invariant. -/
theorem WalkInv.skip (hd : 0 < step.nanos) (h : WalkInv start stop step j t last log js)
    (hce : t.addDelta? step = some ce) (hle : ce ≤ t.later last) :
    WalkInv start stop step (j + 1) ce last log js := by
  have htc : t < ce := (Timestamp.addDelta?_of_pos hd hce).2.2
  -- the walk has asked before: at the start the first chunk is never covered
  have hne : log ≠ [] := by
    rintro rfl
    obtain ⟨rfl, rfl⟩ := h.fresh_start rfl
    cases h.clock
    simp only [Timestamp.later, lt_irrefl, if_false] at hle
    exact absurd hle (not_le_of_gt htc)
  -- the covered ground stays the same: the rows fetched so far reach past the new chunk end
  have hlast : t.later last = last := by
    rcases Timestamp.later_eq_or (a := t) (b := last) with h1 | h1
    · rw [h1] at hle
      exact absurd (lt_of_lt_of_le htc hle) (lt_irrefl t)
    · exact h1
  have hlater : ce.later last = t.later last := by
    rw [hlast, Timestamp.later, if_neg (not_lt_of_ge (hlast ▸ hle))]
  exact {
    clock := by rw [Timestamp.advance_succ_of_eq h.clock, hce]
    fresh_start := fun h' => absurd h' hne
    first := h.first
    length := h.length
    increasing := h.increasing
    below := fun i hi => Nat.le_succ_of_le (h.below i hi)
    grid := h.grid
    nonempty := h.nonempty
    fresh := h.fresh
    bounded := by rw [hlater]; exact h.bounded
    covered := by rw [hlater]; exact h.covered }

/-- A round that asks for the rest of a chunk keeps the invariant, whatever the rows of the
answer reach. -/
theorem WalkInv.call (h : WalkInv start stop step j t last log js)
    (hts : t < stop) (hce : t.addDelta? step = some ce) (hle : ¬ ce ≤ t.later last) (M : Timestamp) :
    WalkInv start stop step (j + 1) ce M (log ++ [((t.later last, ce), M)]) (js ++ [j + 1]) := by
  have hwin : t.later last < ce := by
    rcases Timestamp.lt_or_le (t.later last) ce with hlt | hge
    · exact hlt
    · exact absurd hge hle
  have hreach : ce ≤ ce.later M := Timestamp.le_later_left
  exact {
    clock := by rw [Timestamp.advance_succ_of_eq h.clock, hce]
    fresh_start := fun h' => absurd h' (by simp)
    first := by
      cases hlog : log with
      | nil =>
        -- the first question is asked in the first round, from the start
        obtain ⟨rfl, rfl⟩ := h.fresh_start hlog
        cases h.clock
        simp [Timestamp.later]
      | cons a log' =>
        have := h.first
        simp only [hlog, List.head?_cons, Option.mem_def, Option.some.injEq, forall_eq'] at this
        simpa using this
    length := by simp [h.length]
    increasing := by
      rw [List.pairwise_append]
      exact ⟨h.increasing, List.pairwise_singleton _ _, fun i hi k hk => by
        rw [List.mem_singleton.1 hk]
        exact Nat.lt_succ_of_le (h.below i hi)⟩
    below := by
      intro i hi
      rcases List.mem_append.1 hi with hi | hi
      · exact Nat.le_succ_of_le (h.below i hi)
      · rw [List.mem_singleton.1 hi]
    grid := by
      intro p hp
      rw [List.zip_append h.length, List.mem_append] at hp
      rcases hp with hp | hp
      · exact h.grid p hp
      · simp only [List.zip_cons_cons, List.zip_nil_left, List.mem_singleton] at hp
        subst hp
        exact ⟨Nat.succ_pos j, by rw [Timestamp.advance_succ_of_eq h.clock, hce], t, h.clock, hts⟩
    nonempty := by
      intro a ha
      rcases List.mem_append.1 ha with ha | ha
      · exact h.nonempty a ha
      · rw [List.mem_singleton.1 ha]
        exact hwin
    fresh := by
      rw [List.pairwise_append]
      exact ⟨h.fresh, List.pairwise_singleton _ _, fun a ha b hb => by
        rw [List.mem_singleton.1 hb]
        exact h.bounded a ha⟩
    bounded := by
      intro a ha
      rcases List.mem_append.1 ha with ha | ha
      · obtain ⟨h1, h2⟩ := h.bounded a ha
        exact ⟨(h1.trans (le_of_lt hwin)).trans hreach, (h2.trans (le_of_lt hwin)).trans hreach⟩
      · rw [List.mem_singleton.1 ha]
        exact ⟨hreach, Timestamp.le_later_right⟩
    covered := by
      intro u hs hu
      rcases Timestamp.lt_or_le u (t.later last) with hold | hnew
      · obtain ⟨a, ha, hau⟩ := h.covered u hs hold
        exact ⟨a, List.mem_append_left _ ha, hau⟩
      · exact ⟨_, List.mem_append_right _ (List.mem_singleton_self _), hnew, hu⟩ }

theorem WalkInv.stepped (h : WalkInv start stop step j t last log js) : Stepped start stop step log :=
  ⟨⟨js, h.length, h.increasing, h.grid⟩, h.first, h.nonempty, h.fresh⟩

/-- Once the walk has passed the end, the windows and their answers cover the whole window. -/
theorem WalkInv.covers (h : WalkInv start stop step j t last log js) (hst : stop ≤ t) :
    Covers start stop log :=
  fun u hs hu => h.covered u hs (lt_of_lt_of_le hu (hst.trans Timestamp.le_later_left))

end Shape

section Count
variable {start stop : Timestamp} {step : TimeDelta} {log : List ((Timestamp × Timestamp) × Timestamp)}

theorem exists_mem_zip_of_mem {α β : Type} {l : List α} {l' : List β} (hl : l.length = l'.length)
    {x : α} (hx : x ∈ l) : ∃ y, (x, y) ∈ l.zip l' := by
  obtain ⟨i, hi, rfl⟩ := List.mem_iff_getElem.1 hx
  refine ⟨l'.get ⟨i, hl ▸ hi⟩, List.mem_iff_getElem.2 ⟨i, ?_, List.getElem_zip⟩⟩
  simp only [List.length_zip]
  omega

/-- Outside leap seconds, a step number on the grid of a walk is at most the number of steps it
takes to cover the window. -/
theorem le_ceil_of_onGrid (hd : 0 < step.nanos) (hs : ¬ start.IsLeap) (he : ¬ stop.IsLeap) {j : Nat}
    {u : Timestamp} (hu : start.advance step (j - 1) = some u) (hlt : u < stop) (hj : 0 < j) :
    (j : ℤ) ≤ ⌈((stop.since start).nanos : ℚ) / step.nanos⌉ := by
  obtain ⟨hlin, hleap⟩ := Timestamp.advance_linear hd hu
  have hul : u.linear < stop.linear := (Timestamp.lt_iff_linear (fun h => hs (hleap h)) he).1 hlt
  have hD := Timestamp.since_of_not_leap he hs
  have hmul : (((j - 1 : Nat) : ℤ) : ℚ) * step.nanos < (stop.since start).nanos := by
    rw [hD]
    exact_mod_cast (by omega : ((j - 1 : Nat) : ℤ) * step.nanos < stop.linear - start.linear)
  have hceil : ((j - 1 : Nat) : ℤ) < ⌈((stop.since start).nanos : ℚ) / step.nanos⌉ := by
    rw [Int.lt_ceil, lt_div_iff₀ (by exact_mod_cast hd)]
    exact_mod_cast hmul
  omega

/-- Outside leap seconds at its ends, a walk asks at most as many questions as steps fit in the
window. -/
theorem Stepped.length_le (hd : 0 < step.nanos) (hs : ¬ start.IsLeap) (he : ¬ stop.IsLeap)
    (h : Stepped start stop step log) :
    log.length ≤ (⌈((stop.since start).nanos : ℚ) / step.nanos⌉).toNat := by
  obtain ⟨js, hlen, hinc, hgrid⟩ := h.onGrid
  have hsub : js.toFinset ⊆ Finset.Icc 1 (⌈((stop.since start).nanos : ℚ) / step.nanos⌉).toNat := by
    intro j hj
    obtain ⟨a, ha⟩ := exists_mem_zip_of_mem hlen (List.mem_toFinset.1 hj)
    obtain ⟨hj0, -, u, hu, hlt⟩ := hgrid _ ha
    have := le_ceil_of_onGrid hd hs he hu hlt hj0
    rw [Finset.mem_Icc]
    omega
  have hcard := Finset.card_le_card hsub
  rw [List.toFinset_card_of_nodup (hinc.imp Nat.ne_of_lt), Nat.card_Icc] at hcard
  omega

end Count

section Run

variable {q : Query} {clock : Clock} {start stop : Timestamp} {step : TimeDelta}

theorem ask_eq (cs ce : Timestamp) (s : FetchState) :
    ask q cs ce s = match q s.calls.size cs ce with
      | .ok a => .ok a { s with calls := s.calls.push (cs, ce) }
      | .error e => .error e { s with calls := s.calls.push (cs, ce) } := by
  simp only [ask, getThe, MonadStateOf.get, EStateM.get, bind, EStateM.bind, set, EStateM.set, lift]
  cases q s.calls.size cs ce <;> rfl

/-- What one round of the walk can do: stop at the end, fail to step, pass over a covered
chunk, or ask for the rest of the chunk, logging the question, and then fail or go on from
where the rows of the answer end. -/
theorem walk_succ_cases {fuel : Nat} {t last : Timestamp} {s : FetchState}
    {r : EStateM.Result CacheError FetchState Unit} (h : walk q clock stop step (fuel + 1) t last s = r) :
    (¬ t < stop ∧ r = .ok () s) ∨
    (t < stop ∧ t.addDelta? step = none ∧ ∃ e, r = .error e s) ∨
    (t < stop ∧ ∃ ce, t.addDelta? step = some ce ∧ ce ≤ t.later last ∧
      r = walk q clock stop step fuel ce last s) ∨
    (t < stop ∧ ∃ ce, t.addDelta? step = some ce ∧ ¬ ce ≤ t.later last ∧
      ∃ s', s'.calls = s.calls.push (t.later last, ce) ∧
        ((∃ e, r = .error e s') ∨
          r = walk q clock stop step fuel ce (answerEnd (q s.calls.size (t.later last) ce) ce) s')) := by
  subst h
  rw [walk]
  by_cases ht : t < stop
  · rw [if_pos ht]
    cases hce : t.addDelta? step with
    | none => exact .inr (.inl ⟨ht, rfl, _, rfl⟩)
    | some ce =>
      dsimp only
      by_cases hle : ce ≤ t.later last
      · rw [if_pos hle]
        exact .inr (.inr (.inl ⟨ht, ce, rfl, hle, rfl⟩))
      · rw [if_neg hle]
        refine .inr (.inr (.inr ⟨ht, ce, rfl, hle, ?_⟩))
        simp only [bind, EStateM.bind]
        rw [ask_eq]
        cases hq : q s.calls.size (t.later last) ce with
        | error e => exact ⟨_, rfl, .inl ⟨e, rfl⟩⟩
        | ok a =>
          dsimp only
          cases a with
          | none => exact ⟨_, rfl, .inr rfl⟩
          | some f =>
            dsimp only
            by_cases hf : f.isEmpty = true
            · rw [if_pos hf]
              exact ⟨_, rfl, .inr (by simp [answerEnd, hf]; rfl)⟩
            · -- a non-empty answer is stored first; storing touches only the cache
              rw [if_neg hf]
              simp only [EStateM.bind, storeAnswer, discard, Functor.mapConst, Function.comp_apply,
                EStateM.map, onCache]
              cases Cache.store (clock (s.calls.push (t.later last, ce)).size) f s.cache with
              | ok p c => exact ⟨_, rfl, .inr (by simp [answerEnd, hf]; rfl)⟩
              | error e c => exact ⟨_, rfl, .inl ⟨e, rfl⟩⟩
  · rw [if_neg ht]
    exact .inl ⟨ht, rfl⟩

/-- Every run of the walk keeps the invariant, whether it ends at the end of the window or
fails, and a run that succeeds has passed the end. The questions already asked are `pre`, of
which those since the walk began are `C`. -/
theorem walk_run (hd : 0 < step.nanos) (pre : List (Timestamp × Timestamp)) :
    ∀ (fuel j : Nat) (t last : Timestamp) (C : List (Timestamp × Timestamp)) (js : List Nat)
      (s : FetchState), s.calls.toList = pre ++ C →
      WalkInv start stop step j t last (answered q pre.length C) js →
      (∀ u, start.advance step (j + fuel) = some u → stop ≤ u) →
      ∃ C' j' t' last' js', (endState (walk q clock stop step fuel t last s)).calls.toList = pre ++ C' ∧
        WalkInv start stop step j' t' last' (answered q pre.length C') js' ∧
        (∀ s', walk q clock stop step fuel t last s = .ok () s' → stop ≤ t') := by
  intro fuel
  induction fuel with
  | zero =>
    intro j t last C js s hs hinv hfuel
    exact ⟨C, j, t, last, js, hs, hinv, fun _ _ => hfuel t hinv.clock⟩
  | succ fuel ih =>
    intro j t last C js s hs hinv hfuel
    have hfuel' : ∀ u, start.advance step (j + 1 + fuel) = some u → stop ≤ u := by
      rw [Nat.add_assoc, Nat.add_comm 1]
      exact hfuel
    rcases walk_succ_cases (q := q) (rfl : walk q clock stop step (fuel + 1) t last s = _) with
      ⟨hts, hr⟩ | ⟨-, -, e, hr⟩ | ⟨-, ce, hce, hle, hr⟩ | ⟨hts, ce, hce, hle, s', hs', hr⟩
    · -- the walk is past the end
      refine ⟨C, j, t, last, js, by rw [hr]; exact hs, hinv, fun _ _ => ?_⟩
      exact Timestamp.not_lt_iff.1 hts
    · -- stepping fails before anything is asked
      refine ⟨C, j, t, last, js, by rw [hr]; exact hs, hinv, fun s' h => ?_⟩
      rw [hr] at h
      cases h
    · -- a covered chunk is passed over
      rw [hr]
      exact ih (j + 1) ce last C js s hs (hinv.skip hd hce hle) hfuel'
    · -- the rest of the chunk is asked for and logged
      have hsize : s.calls.size = pre.length + C.length := by
        rw [← Array.length_toList, hs, List.length_append]
      have hs'' : s'.calls.toList = pre ++ (C ++ [(t.later last, ce)]) := by
        rw [hs', Array.toList_push, hs, List.append_assoc]
      have hlog : answered q pre.length (C ++ [(t.later last, ce)]) = answered q pre.length C ++
          [((t.later last, ce), answerEnd (q s.calls.size (t.later last) ce) ce)] := by
        rw [answered_append, hsize]
      have hinv' := hinv.call hts hce hle (answerEnd (q s.calls.size (t.later last) ce) ce)
      rw [← hlog] at hinv'
      rcases hr with ⟨e, hr⟩ | hr
      · refine ⟨_, j + 1, ce, _, js ++ [j + 1], by rw [hr]; exact hs'', hinv', fun s'' h => ?_⟩
        rw [hr] at h
        cases h
      · rw [hr]
        exact ih (j + 1) ce _ _ (js ++ [j + 1]) s' hs'' hinv' hfuel'

theorem lift_state {α : Type} (x : Except CacheError α) (s : FetchState) : endState (lift x s) = s := by
  cases x <;> rfl

theorem fetch_of_some {span : Span} {opts : FetchOptions} (hspan : opts.step = some span) :
    fetch q clock start stop opts =
      fetchSteps q clock start stop span ((TimeDelta.ofSpan? span).filter (0 < ·.nanos)) opts.dedup := by
  rw [fetch.eq_def, hspan]

/-- With a usable step, a fetch is its walk followed by a read of the cache. -/
theorem fetch_of_step {opts : FetchOptions} {span : Span} (hspan : opts.step = some span)
    (hstep : TimeDelta.ofSpan? span = some step) (hpos : 0 < step.nanos) :
    fetch q clock start stop opts = (do
      walk q clock stop step (start.stepBound stop step) start start
      let s ← getThe FetchState
      lift (s.cache.get (some start) (some stop) opts.dedup)) := by
  have hfilter : (TimeDelta.ofSpan? span).filter (0 < ·.nanos) = some step := by
    rw [hstep]
    exact if_pos (decide_eq_true hpos)
  rw [fetch_of_some hspan, hfilter]
  rfl

/-- A fetch with a usable step asks exactly what its walk asks, and succeeds only when the walk
does. -/
theorem fetch_runs_walk {opts : FetchOptions} {span : Span} (hspan : opts.step = some span)
    (hstep : TimeDelta.ofSpan? span = some step) (hpos : 0 < step.nanos) (s : FetchState) :
    (endState (fetch q clock start stop opts s)).calls =
      (endState (walk q clock stop step (start.stepBound stop step) start start s)).calls ∧
    ∀ g s', fetch q clock start stop opts s = .ok g s' →
      walk q clock stop step (start.stepBound stop step) start start s = .ok () s' := by
  rw [fetch_of_step hspan hstep hpos]
  simp only [bind, EStateM.bind, getThe, MonadStateOf.get, EStateM.get]
  cases walk q clock stop step (start.stepBound stop step) start start s with
  | ok u s' =>
    dsimp only
    refine ⟨congrArg FetchState.calls (lift_state _ s'), fun g s'' h => ?_⟩
    have hs := congrArg endState h
    rw [lift_state] at hs
    rw [hs]
    rfl
  | error e s' => exact ⟨rfl, fun g s'' h => by cases h⟩

end Run

section Fuel

variable {q : Query} {clock : Clock} {start stop : Timestamp} {step : TimeDelta}

/-- Fuel beyond a bound that reaches the end changes nothing: the walk stops by itself once it
is past the end, so the loop it stands for ends. -/
theorem walk_fuel_eq :
    ∀ (fuel fuel' j : Nat) (t : Timestamp), fuel ≤ fuel' → start.advance step j = some t →
      (∀ u, start.advance step (j + fuel) = some u → stop ≤ u) →
      walk q clock stop step fuel' t = walk q clock stop step fuel t := by
  intro fuel
  induction fuel with
  | zero =>
    intro fuel' j t _ ht hfuel
    have hst : ¬ t < stop := Timestamp.not_lt_iff.2 (hfuel t ht)
    funext last s
    cases fuel' with
    | zero => rfl
    | succ fuel' => rw [walk, walk, if_neg hst]
  | succ fuel ih =>
    intro fuel' j t hle ht hfuel
    obtain ⟨fuel', rfl⟩ : ∃ f, fuel' = f + 1 := ⟨fuel' - 1, by omega⟩
    funext last s
    rw [walk, walk]
    cases hce : t.addDelta? step with
    | none => rfl
    | some ce =>
      -- the rest of the walk starts one step further on with one unit of fuel less on both sides
      have hnext : walk q clock stop step fuel' ce = walk q clock stop step fuel ce :=
        ih fuel' (j + 1) ce (by omega) (by rw [Timestamp.advance_succ_of_eq ht, hce])
          (by rw [Nat.add_assoc, Nat.add_comm 1]; exact hfuel)
      simp only [hnext]

end Fuel

section Discipline

variable {q : Query} {clock : Clock} {start stop : Timestamp} {step : TimeDelta}

/-- A fetch with a usable step, from any state and whatever its source answers: its questions lie
on the grid of the step, the first from the start, each one non-empty and starting where the
earlier ones and the rows of their answers end; when it succeeds they leave no gap; with ends
outside leap seconds there are at most as many as steps fit in the window; and its walk ends
within its bound of rounds. -/
theorem fetch_asks_stepped_questions {opts : FetchOptions} {span : Span}
    (hspan : opts.step = some span) (hstep : TimeDelta.ofSpan? span = some step)
    (hpos : 0 < step.nanos) (hlt : start < stop) (s : FetchState) :
    Stepped start stop step (askedDuring q s (fetch q clock start stop opts s)) ∧
    (∀ g s', fetch q clock start stop opts s = .ok g s' →
      Covers start stop (askedDuring q s (fetch q clock start stop opts s))) ∧
    (¬ start.IsLeap → ¬ stop.IsLeap → ((askedDuring q s (fetch q clock start stop opts s)).length : ℤ) ≤
      ⌈((stop.since start).nanos : ℚ) / step.nanos⌉) ∧
    ∀ fuel ≥ start.stepBound stop step,
      walk q clock stop step fuel start start = walk q clock stop step (start.stepBound stop step) start start := by
  have hbound : ∀ u, start.advance step (0 + start.stepBound stop step) = some u → stop ≤ u :=
    fun u hu => Timestamp.stop_le_advance_stepBound hpos (by simpa using hu)
  obtain ⟨C, j, t, last, js, hcalls, hinv, hstop⟩ := @walk_run q clock start stop step hpos s.calls.toList
    (start.stepBound stop step) 0 start start [] [] s (by simp) WalkInv.init hbound
  obtain ⟨hsame, hok⟩ := @fetch_runs_walk q clock start stop step opts span hspan hstep hpos s
  -- the questions of the fetch are those its walk added to the log
  have hlog : askedDuring q s (fetch q clock start stop opts s) = answered q s.calls.size C := by
    unfold askedDuring
    rw [hsame, hcalls, ← Array.length_toList, List.drop_left]
  rw [hlog, ← Array.length_toList]
  refine ⟨hinv.stepped, fun g s' h => hinv.covers (hstop s' (hok g s' h)), fun hs he => ?_,
    fun fuel hf => congrFun (walk_fuel_eq _ _ 0 start hf rfl hbound) start⟩
  -- the window is positive, so the number of steps that fit is not negative
  have hD : 0 < (stop.since start).nanos := by
    rw [Timestamp.since_of_not_leap he hs]
    have := (Timestamp.lt_iff_linear hs he).1 hlt
    omega
  have hceil : 0 ≤ ⌈((stop.since start).nanos : ℚ) / step.nanos⌉ :=
    Int.ceil_nonneg (div_nonneg (by exact_mod_cast hD.le) (by exact_mod_cast hpos.le))
  have := hinv.stepped.length_le hpos hs he
  omega

/-- A source that never has rows. -/
def silentSource : Query := fun _ _ _ => .ok none

/-- A fetch in steps of one second. -/
def oneSecondSteps : FetchOptions where
  step := some (Span.ofWholeSeconds 1)

/-- A fresh cache that has asked nothing yet. -/
def freshState : FetchState := ⟨⟨"cache", .empty, TimeDelta.zero⟩, #[]⟩

/-- A clock stopped at the Unix epoch. -/
def stoppedClock : Clock := fun _ => ⟨0, 0⟩

/-- Two seconds after the epoch. -/
def twoSeconds : Timestamp := (Timestamp.ofParts? 2 0 Timestamp.epoch.offset).getD default

theorem silent_fetch_asks_stepped_questions :
    oneSecondSteps.step = some (Span.ofWholeSeconds 1) ∧
    TimeDelta.ofSpan? (Span.ofWholeSeconds 1) = some (TimeDelta.ofWholeSeconds 1) ∧
    0 < (TimeDelta.ofWholeSeconds 1).nanos ∧ Timestamp.epoch < twoSeconds ∧
    (Stepped Timestamp.epoch twoSeconds (TimeDelta.ofWholeSeconds 1)
        (askedDuring silentSource freshState
          (fetch silentSource stoppedClock Timestamp.epoch twoSeconds oneSecondSteps freshState)) ∧
      (∀ g s', fetch silentSource stoppedClock Timestamp.epoch twoSeconds oneSecondSteps freshState = .ok g s' →
        Covers Timestamp.epoch twoSeconds (askedDuring silentSource freshState
          (fetch silentSource stoppedClock Timestamp.epoch twoSeconds oneSecondSteps freshState))) ∧
      (¬ Timestamp.epoch.IsLeap → ¬ twoSeconds.IsLeap →
        ((askedDuring silentSource freshState
          (fetch silentSource stoppedClock Timestamp.epoch twoSeconds oneSecondSteps freshState)).length : ℤ) ≤
          ⌈((twoSeconds.since Timestamp.epoch).nanos : ℚ) / (TimeDelta.ofWholeSeconds 1).nanos⌉) ∧
      ∀ fuel ≥ Timestamp.epoch.stepBound twoSeconds (TimeDelta.ofWholeSeconds 1),
        walk silentSource stoppedClock twoSeconds (TimeDelta.ofWholeSeconds 1) fuel Timestamp.epoch Timestamp.epoch =
          walk silentSource stoppedClock twoSeconds (TimeDelta.ofWholeSeconds 1)
            (Timestamp.epoch.stepBound twoSeconds (TimeDelta.ofWholeSeconds 1))
            Timestamp.epoch Timestamp.epoch) :=
  ⟨rfl, by decide, by decide, by decide,
    fetch_asks_stepped_questions rfl (by decide) (by decide) (by decide) freshState⟩

/-- Half a second into the leap second at the end of 2016. -/
def inLeapSecond : Timestamp :=
  (Timestamp.ofParts? 1483228799 1500000000 Timestamp.epoch.offset).getD default

/-- 2017-01-01T00:00:01Z. -/
def afterLeapSecond : Timestamp := (Timestamp.ofParts? 1483228801 0 Timestamp.epoch.offset).getD default

/-- A fetch in steps of half a second. -/
def halfSecondSteps : FetchOptions where
  step := some ((Span.ofParts? 0 500000000).getD default)

def halfSecond : TimeDelta := (TimeDelta.ofNanos? 500000000).getD default

/-- From half a second into a leap second to 00:00:01 the walk takes three half-second steps,
one out of the leap second and two after it, while the span from its start to its end counts
the leap second out: half a second, one step. -/
theorem leap_start_fetch_exceeds_step_count :
    TimeDelta.ofSpan? ⟨0, 500000000, by decide, by decide⟩ = some halfSecond ∧
    inLeapSecond < afterLeapSecond ∧
    (askedDuring silentSource freshState
      (fetch silentSource stoppedClock inLeapSecond afterLeapSecond halfSecondSteps freshState)).length = 3 ∧
    ⌈((afterLeapSecond.since inLeapSecond).nanos : ℚ) / halfSecond.nanos⌉ = 1 := by
  refine ⟨by decide, by decide, by decide +kernel, ?_⟩
  have hspan : (afterLeapSecond.since inLeapSecond).nanos = 500000000 := by decide
  have hstep : halfSecond.nanos = 500000000 := by decide
  rw [hspan, hstep]
  norm_num

end Discipline

end Fetch

end FrameCache
