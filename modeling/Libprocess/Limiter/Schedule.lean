import Libprocess.Limiter.Process

/-!
# The schedule of permits

While acquisitions wait, exactly one delay is outstanding, which is over when the timeout is.  So
the permits are granted in the order of the acquisitions and an interval apart.
-/

namespace Libprocess.Limiter

namespace System

variable {system : System} {rate : { rate : ℚ // 0 < rate }} {id : Nat}

/-- One delay of `_acquire` is outstanding exactly while acquisitions wait.  It is not over before
the timeout, and not later than that or than now. -/
inductive Outstanding (system : System) : Prop where
  | idle : system.process.promises = [] → system.delays = [] → Outstanding system
  | waiting {due : ℚ} : system.process.promises ≠ [] → system.delays = [due] →
      system.process.timeout ≤ due → due ≤ max system.process.timeout system.clock →
      Outstanding system

/-- The grants, and the timeout that the last of them set. -/
structure Spaced (system : System) : Prop where
  apart : system.grants.Pairwise fun earlier later =>
    earlier.time + system.process.interval ≤ later.time
  before : ∀ grant ∈ system.grants, grant.time + system.process.interval ≤ system.process.timeout
  last : ∀ grant, system.grants.getLast? = some grant →
    system.process.timeout = grant.time + system.process.interval

/-- The acquisitions that were handled are granted, discarded or waiting, in their order. -/
structure Queued (system : System) : Prop where
  granted : system.grants.Pairwise fun earlier later => earlier.id < later.id
  waiting : system.process.promises.Pairwise (· < ·)
  behind : ∀ grant ∈ system.grants, grant.id < system.handled ∧
    ∀ promise ∈ system.process.promises, grant.id < promise
  made : ∀ promise ∈ system.process.promises, promise < system.handled
  ready : ∀ id, system.futures id = .ready ↔ ∃ grant ∈ system.grants, grant.id = id
  pending : ∀ id < system.handled, system.futures id = .pending → id ∈ system.process.promises
  unhandled : ∀ id, system.handled ≤ id → system.futures id = .pending

structure Sound (rate : { rate : ℚ // 0 < rate }) (system : System) : Prop where
  running : system.aborted = false
  rate : system.process.permitsPerSecond = rate
  outstanding : Outstanding system
  spaced : Spaced system
  queued : Queued system

theorem interval_pos (system : System) : 0 < system.process.interval :=
  one_div_pos.mpr system.process.permitsPerSecond.2

theorem due_delay (system : System) :
    system.clock + system.process.remaining system.clock =
      max system.process.timeout system.clock := by
  unfold RateLimiterProcess.remaining
  split
  · rename_i later
    rw [max_eq_left (by linarith)]
    linarith
  · rename_i past
    rw [max_eq_right (by linarith)]
    linarith

theorem timeout_le_of_remaining (past : ¬ 0 < system.process.remaining system.clock) :
    system.process.timeout ≤ system.clock := by
  unfold RateLimiterProcess.remaining at past
  split at past
  · contradiction
  · linarith

theorem sound_init (rate : { rate : ℚ // 0 < rate }) (start : ℚ) : Sound rate (init rate start) where
  running := rfl
  rate := rfl
  outstanding := .idle rfl rfl
  spaced := ⟨.nil, by simp [init], by simp [init]⟩
  queued := ⟨.nil, .nil, by simp [init], by simp [init], by simp [init], by simp [init],
    by simp [init]⟩

/-! ## Granting and waiting -/

/-- A grant after the timeout is an interval later than the others. -/
theorem Spaced.grant (spaced : Spaced system) (past : system.process.timeout ≤ system.clock) :
    Spaced (system.grant id) where
  apart := by
    apply List.pairwise_append.mpr
    refine ⟨spaced.apart, List.pairwise_singleton _ _, ?_⟩
    intro earlier member later last
    rw [List.mem_singleton.mp last]
    exact (spaced.before earlier member).trans past
  before grant member := by
    have positive := system.interval_pos
    change grant.time + system.process.interval ≤ system.clock + system.process.interval
    cases List.mem_append.mp member with
    | inl old =>
        have early := spaced.before grant old
        linarith
    | inr new => rw [List.mem_singleton.mp new]
  last grant last := by
    simp only [System.grant, List.getLast?_append, List.getLast?_singleton, Option.some_or,
      Option.some.injEq] at last
    rw [← last]
    rfl

/-- Spacing is about the process and its grants only. -/
theorem Spaced.congr {other : System} (spaced : Spaced system)
    (grants : other.grants = system.grants)
    (timeout : other.process.timeout = system.process.timeout)
    (rate : other.process.permitsPerSecond = system.process.permitsPerSecond) : Spaced other := by
  have interval : other.process.interval = system.process.interval := by
    rw [RateLimiterProcess.interval, rate]
    rfl
  constructor
  · rw [grants, interval]
    exact spaced.apart
  · rw [grants, interval, timeout]
    exact spaced.before
  · rw [grants, interval, timeout]
    exact spaced.last

theorem Outstanding.congr {other : System} (outstanding : Outstanding system)
    (process : other.process = system.process) (delays : other.delays = system.delays)
    (clock : system.clock ≤ other.clock) : Outstanding other := by
  cases outstanding with
  | idle none idle => exact .idle (by rw [process, none]) (by rw [delays, idle])
  | waiting some one early late =>
      apply Outstanding.waiting (by rwa [process]) (by rw [delays, one])
      · rwa [process]
      · rw [process]
        exact late.trans (max_le_max_left _ clock)

/-- The delay that is made while none is outstanding. -/
theorem Outstanding.delay (some : system.process.promises ≠ []) (none : system.delays = []) :
    Outstanding system.delay := by
  have due := due_delay system
  apply @Outstanding.waiting system.delay (max system.process.timeout system.clock) some
  · change system.delays ++ [system.clock + system.process.remaining system.clock] = [_]
    rw [none, due]
    rfl
  · exact le_max_left _ _
  · exact le_refl _

theorem Queued.congr {other : System} (queued : Queued system)
    (grants : other.grants = system.grants)
    (promises : other.process.promises = system.process.promises)
    (handled : other.handled = system.handled) (futures : other.futures = system.futures) :
    Queued other := by
  obtain ⟨granted, waiting, behind, made, ready, pending, unhandled⟩ := queued
  constructor
  · rwa [grants]
  · rwa [promises]
  · rwa [grants, promises, handled]
  · rwa [promises, handled]
  · rwa [futures, grants]
  · rwa [handled, futures, promises]
  · rwa [handled, futures]

/-- The acquisition that is handled next waits. -/
theorem Queued.push (queued : Queued system) :
    Queued ({ system with handled := system.handled + 1 }.push system.handled) where
  granted := queued.granted
  waiting := by
    apply List.pairwise_append.mpr
    refine ⟨queued.waiting, List.pairwise_singleton _ _, ?_⟩
    intro earlier member later last
    rw [List.mem_singleton.mp last]
    exact queued.made earlier member
  behind grant member := by
    obtain ⟨handled, before⟩ := queued.behind grant member
    refine ⟨Nat.lt_succ_of_lt handled, ?_⟩
    intro promise inside
    cases List.mem_append.mp inside with
    | inl old => exact before promise old
    | inr new =>
        rw [List.mem_singleton.mp new]
        exact handled
  made promise inside := by
    cases List.mem_append.mp inside with
    | inl old => exact Nat.lt_succ_of_lt (queued.made promise old)
    | inr new =>
        rw [List.mem_singleton.mp new]
        exact Nat.lt_succ_self _
  ready := queued.ready
  pending id handled pending := by
    apply List.mem_append.mpr
    cases Nat.lt_succ_iff_lt_or_eq.mp handled with
    | inl old => exact .inl (queued.pending id old pending)
    | inr new => exact .inr (List.mem_singleton.mpr new)
  unhandled id later := queued.unhandled id (Nat.le_of_succ_le later)

/-- A promise is granted behind others that are discarded. -/
theorem Queued.grant {skipped rest : List Nat} (queued : Queued system)
    (whole : system.process.promises = skipped ++ id :: rest)
    (dropped : ∀ promise ∈ skipped, system.futures promise = .discarded) :
    Queued ({ system with process := { system.process with promises := rest } }.grant id) := by
  have waiting := queued.waiting
  have inside : ∀ promise ∈ rest, promise ∈ system.process.promises := by
    intro promise member
    rw [whole]
    exact List.mem_append_right _ (List.mem_cons_of_mem _ member)
  have granted : id ∈ system.process.promises := by
    rw [whole]
    exact List.mem_append_right _ List.mem_cons_self
  rw [whole] at waiting
  obtain ⟨first, ordered⟩ := List.pairwise_cons.mp (List.pairwise_append.mp waiting).2.1
  constructor
  · apply List.pairwise_append.mpr
    refine ⟨queued.granted, List.pairwise_singleton _ _, ?_⟩
    intro earlier member later last
    rw [List.mem_singleton.mp last]
    exact (queued.behind earlier member).2 id granted
  · exact ordered
  · intro grant member
    cases List.mem_append.mp member with
    | inl old =>
        obtain ⟨handled, before⟩ := queued.behind grant old
        exact ⟨handled, fun promise member => before promise (inside promise member)⟩
    | inr new =>
        rw [List.mem_singleton.mp new]
        exact ⟨queued.made id granted, first⟩
  · intro promise member
    exact queued.made promise (inside promise member)
  · intro other
    change Function.update system.futures id .ready other = .ready ↔
      ∃ grant ∈ system.grants ++ [⟨id, system.clock⟩], grant.id = other
    by_cases same : other = id
    · subst same
      simp
    · rw [Function.update_of_ne same, queued.ready]
      simp [Ne.symm same]
  · intro other handled pending
    change Function.update system.futures id .ready other = .pending at pending
    have different : other ≠ id := by
      rintro rfl
      simp at pending
    rw [Function.update_of_ne different] at pending
    have member := queued.pending other handled pending
    rw [whole, List.mem_append, List.mem_cons] at member
    obtain before | same | behind := member
    · rw [dropped other before] at pending
      cases pending
    · exact absurd same different
    · exact behind
  · intro other later
    change Function.update system.futures id .ready other = .pending
    have different : other ≠ id := by
      rintro rfl
      exact absurd (queued.made other granted) (Nat.not_lt.mpr later)
    rw [Function.update_of_ne different]
    exact queued.unhandled other later

/-- No promise is left when all are discarded. -/
theorem Queued.drop (queued : Queued system)
    (dropped : ∀ promise ∈ system.process.promises, system.futures promise = .discarded) :
    Queued { system with process := { system.process with promises := [] } } where
  granted := queued.granted
  waiting := .nil
  behind grant member := ⟨(queued.behind grant member).1, by simp⟩
  made := by simp
  ready := queued.ready
  pending id handled pending := by
    have discarded := dropped id (queued.pending id handled pending)
    change system.futures id = .pending at pending
    rw [discarded] at pending
    cases pending
  unhandled := queued.unhandled

theorem Queued.discard (queued : Queued system) : Queued (system.discard id) := by
  unfold System.discard
  split
  · rename_i waits
    obtain ⟨member, pending⟩ := waits
    constructor
    · exact queued.granted
    · exact queued.waiting
    · exact queued.behind
    · exact queued.made
    · intro other
      change Function.update system.futures id .discarded other = .ready ↔ _
      by_cases same : other = id
      · subst same
        rw [Function.update_self]
        constructor
        · intro ready
          cases ready
        · rintro ⟨grant, old, same⟩
          have before := (queued.behind grant old).2 other member
          omega
      · rw [Function.update_of_ne same]
        exact queued.ready other
    · intro other handled waiting
      change Function.update system.futures id .discarded other = .pending at waiting
      have different : other ≠ id := by
        rintro rfl
        simp at waiting
      rw [Function.update_of_ne different] at waiting
      exact queued.pending other handled waiting
    · intro other later
      change Function.update system.futures id .discarded other = .pending
      have different : other ≠ id := by
        rintro rfl
        exact absurd (queued.made other member) (Nat.not_lt.mpr later)
      rw [Function.update_of_ne different]
      exact queued.unhandled other later
  · exact queued

/-! ## Handlers -/

theorem Sound.acquire (sound : Sound rate system) : Sound rate system.acquire := by
  have queued := sound.queued.push
  unfold System.acquire
  simp only
  split
  · rename_i waiting
    refine ⟨sound.running, sound.rate, ?_, sound.spaced.congr rfl rfl rfl, queued⟩
    cases sound.outstanding with
    | idle none _ => exact absurd none waiting
    | waiting some one early late => exact .waiting (by simp [System.push]) one early late
  · rename_i none
    have empty : system.process.promises = [] := not_not.mp none
    have idle : system.delays = [] := by
      cases sound.outstanding with
      | idle _ idle => exact idle
      | waiting some _ _ _ => exact absurd empty some
    split
    · exact ⟨sound.running, sound.rate, Outstanding.delay (by simp [System.push]) idle,
        sound.spaced.congr rfl rfl rfl, queued.congr rfl rfl rfl rfl⟩
    · rename_i past
      have early := timeout_le_of_remaining past
      have granted := @Queued.grant _ system.handled [] [] queued (by simp [System.push, empty])
        (by simp)
      refine ⟨sound.running, sound.rate, .idle empty idle,
        Spaced.grant (sound.spaced.congr rfl rfl rfl) early, ?_⟩
      constructor
      · exact granted.granted
      · change system.process.promises.Pairwise _
        rw [empty]
        exact .nil
      · intro grant member
        refine ⟨(granted.behind grant member).1, ?_⟩
        change ∀ promise ∈ system.process.promises, _
        simp [empty]
      · change ∀ promise ∈ system.process.promises, _
        simp [empty]
      · exact granted.ready
      · intro id handled pending
        exact absurd (granted.pending id handled pending) List.not_mem_nil
      · exact granted.unhandled

/-- The loop of `_acquire` ends at the first promise that is not discarded. -/
theorem next_cases (futures : Nat → FutureState) (promises : List Nat) :
    (next futures promises = (none, []) ∧ ∀ promise ∈ promises, futures promise = .discarded) ∨
      ∃ skipped id rest, next futures promises = (some id, rest) ∧
        promises = skipped ++ id :: rest ∧ ∀ promise ∈ skipped, futures promise = .discarded := by
  induction promises with
  | nil => exact .inl ⟨rfl, by simp⟩
  | cons promise others ih =>
      by_cases dropped : futures promise = .discarded
      · have further : next futures (promise :: others) = next futures others := by
          rw [next, if_neg (by simp [dropped])]
        rw [further]
        cases ih with
        | inl all =>
            left
            refine ⟨all.1, ?_⟩
            intro other member
            cases List.mem_cons.mp member with
            | inl same => rwa [same]
            | inr later => exact all.2 other later
        | inr found =>
            obtain ⟨skipped, id, rest, result, whole, before⟩ := found
            right
            refine ⟨promise :: skipped, id, rest, result, by rw [whole]; rfl, ?_⟩
            intro other member
            cases List.mem_cons.mp member with
            | inl same => rwa [same]
            | inr later => exact before other later
      · right
        exact ⟨[], promise, others, by rw [next, if_pos dropped], rfl, by simp⟩

/-- A delay that is over fires: it grants at most one permit, and it is followed by another delay
exactly if acquisitions still wait. -/
theorem Sound.fire (sound : Sound rate system) {place : Nat} {due : ℚ}
    (found : system.delays[place]? = some due) (past : due ≤ system.clock) :
    Sound rate ({ system with delays := system.delays.eraseIdx place }._acquire) := by
  cases sound.outstanding with
  | idle _ none =>
      rw [none] at found
      cases found
  | waiting some one early _ =>
  rw [one] at found
  have only : place = 0 := by
    cases place with
    | zero => rfl
    | succ place => cases found
  subst only
  cases found
  have late : system.process.timeout ≤ system.clock := early.trans past
  unfold System._acquire
  simp only [if_neg some]
  cases next_cases system.futures system.process.promises with
  | inl all =>
      rw [all.1]
      refine ⟨sound.running, sound.rate, ?_, sound.spaced.congr rfl rfl rfl, ?_⟩
      · exact .idle rfl (by simp [one])
      · exact (sound.queued.drop all.2).congr rfl rfl rfl rfl
  | inr found =>
      obtain ⟨skipped, id, rest, result, whole, dropped⟩ := found
      rw [result]
      have queued := sound.queued.grant whole dropped
      have spaced : Spaced (System.grant { system with
          delays := system.delays.eraseIdx 0
          process := { system.process with promises := rest } } id) :=
        Spaced.grant (sound.spaced.congr rfl rfl rfl) late
      by_cases empty : rest = []
      · have final : ({ system with
            delays := system.delays.eraseIdx 0
            process := { system.process with promises := rest } }.grant id).process.promises = [] :=
          empty
        simp only [ne_eq, final, not_true_eq_false, if_false]
        exact ⟨sound.running, sound.rate, .idle final (by simp [System.grant, one]), spaced,
          queued.congr rfl rfl rfl rfl⟩
      · generalize granted : System.grant { system with
            delays := system.delays.eraseIdx 0
            process := { system.process with promises := rest } } id = after at spaced
        have left : after.process.promises = rest := by
          rw [← granted]
          rfl
        have none : after.delays = [] := by
          rw [← granted]
          simp [System.grant, one]
        have waits : after.process.promises ≠ [] := by
          rw [left]
          exact empty
        simp only [granted, if_pos waits]
        refine ⟨?_, ?_, .delay waits none, spaced.congr rfl rfl rfl, ?_⟩
        · rw [← granted]
          exact sound.running
        · rw [← granted]
          exact sound.rate
        · rw [← granted]
          exact queued.congr rfl rfl rfl rfl

theorem Sound.discard (sound : Sound rate system) : Sound rate (system.discard id) := by
  have queued := @Queued.discard system id sound.queued
  have same : (system.discard id).process = system.process ∧
      (system.discard id).delays = system.delays ∧ (system.discard id).clock = system.clock ∧
      (system.discard id).grants = system.grants ∧
      (system.discard id).aborted = system.aborted := by
    unfold System.discard
    split
    · exact ⟨rfl, rfl, rfl, rfl, rfl⟩
    · exact ⟨rfl, rfl, rfl, rfl, rfl⟩
  obtain ⟨process, delays, clock, grants, aborted⟩ := same
  exact ⟨aborted.trans sound.running, by rw [process]; exact sound.rate,
    sound.outstanding.congr process delays clock.ge,
    sound.spaced.congr grants (by rw [process]) (by rw [process]), queued⟩

theorem Sound.step (sound : Sound rate system) (action : Action) :
    Sound rate (system.step action) := by
  unfold System.step
  rw [if_neg (by simp [sound.running])]
  cases action with
  | call =>
      exact ⟨sound.running, sound.rate, sound.outstanding.congr rfl rfl (le_refl _),
        sound.spaced.congr rfl rfl rfl, sound.queued.congr rfl rfl rfl rfl⟩
  | request id =>
      simp only [System.request]
      split
      · exact ⟨sound.running, sound.rate, sound.outstanding.congr rfl rfl (le_refl _),
          sound.spaced.congr rfl rfl rfl, sound.queued.congr rfl rfl rfl rfl⟩
      · exact sound
  | acquire =>
      simp only
      split
      · exact sound.acquire
      · exact sound
  | discard place =>
      simp only
      split
      · apply Sound.discard
        exact ⟨sound.running, sound.rate, sound.outstanding.congr rfl rfl (le_refl _),
          sound.spaced.congr rfl rfl rfl, sound.queued.congr rfl rfl rfl rfl⟩
      · exact sound
  | fire place =>
      simp only
      split
      · rename_i due found
        split
        · rename_i past
          exact sound.fire found past
        · exact sound
      · exact sound
  | advance time =>
      exact ⟨sound.running, sound.rate, sound.outstanding.congr rfl rfl (le_max_left _ _),
        sound.spaced.congr rfl rfl rfl, sound.queued.congr rfl rfl rfl rfl⟩

theorem Sound.run (sound : Sound rate system) (actions : List Action) :
    Sound rate (system.run actions) := by
  induction actions generalizing system with
  | nil => exact sound
  | cons action rest ih => exact ih (sound.step action)

theorem acquire_handled (system : System) :
    system.acquire.handled = system.handled + 1 ∧ system.acquire.calls = system.calls := by
  simp only [acquire]
  split
  · exact ⟨rfl, rfl⟩
  · split <;> exact ⟨rfl, rfl⟩

theorem _acquire_handled (system : System) :
    system._acquire.handled = system.handled ∧ system._acquire.calls = system.calls := by
  simp only [_acquire]
  split
  · exact ⟨rfl, rfl⟩
  · split <;> split <;> exact ⟨rfl, rfl⟩

/-- The process handles what was called. -/
theorem handled_le_step (bounded : system.handled ≤ system.calls) (action : Action) :
    (system.step action).handled ≤ (system.step action).calls := by
  simp only [step]
  split
  · exact bounded
  · cases action with
    | call => exact Nat.le_succ_of_le bounded
    | request id =>
        simp only [request]
        split <;> exact bounded
    | acquire =>
        dsimp only
        split
        · rename_i waits
          rw [(acquire_handled system).1, (acquire_handled system).2]
          exact waits
        · exact bounded
    | discard place =>
        dsimp only
        split
        · simp only [discard]
          split <;> exact bounded
        · exact bounded
    | fire place =>
        dsimp only
        split
        · split
          · rw [(_acquire_handled _).1, (_acquire_handled _).2]
            exact bounded
          · exact bounded
        · exact bounded
    | advance time => exact bounded

theorem handled_le_run (bounded : system.handled ≤ system.calls) (actions : List Action) :
    (system.run actions).handled ≤ (system.run actions).calls := by
  induction actions generalizing system with
  | nil => exact bounded
  | cons action rest ih => exact ih (handled_le_step bounded action)

/-- Whatever the clients, the process and the clock do: no `CHECK` fails; the calls are handled one
after the other; exactly one delay is
outstanding while acquisitions wait, and none otherwise; that delay is over once the timeout is;
every acquisition that was handled is granted, discarded or waits; the permits are granted in the
order of the acquisitions, but to none that is discarded; they are an interval apart; and the
timeout is an interval after the last permit, whatever was discarded since. -/
theorem limiter_sound (rate : { rate : ℚ // 0 < rate }) (start : ℚ) (actions : List Action) :
    let system := (init rate start).run actions
    system.aborted = false ∧
      (system.handled ≤ system.calls ∧ (system.handled < system.calls →
        (system.step .acquire).handled = system.handled + 1) ∧
        ∀ id, system.handled ≤ id → system.futures id = .pending) ∧
      system.delays.length = (if system.process.promises = [] then 0 else 1) ∧
      (∀ due ∈ system.delays, system.process.timeout ≤ system.clock → due ≤ system.clock) ∧
      (∀ id < system.handled, (∃ grant ∈ system.grants, grant.id = id) ∨
        system.futures id = .discarded ∨ id ∈ system.process.promises) ∧
      (system.grants.Pairwise fun earlier later =>
        earlier.id < later.id ∧ earlier.time + 1 / rate.val ≤ later.time) ∧
      (∀ grant ∈ system.grants, ∀ id < grant.id, (∃ earlier ∈ system.grants, earlier.id = id) ∨
        system.futures id = .discarded) ∧
      (∀ id, system.futures id = .discarded → ∀ grant ∈ system.grants, grant.id ≠ id) ∧
      ∀ grant, system.grants.getLast? = some grant →
        system.process.timeout = grant.time + 1 / rate.val := by
  intro system
  have sound : Sound rate system := (sound_init rate start).run actions
  have interval : system.process.interval = 1 / rate.val := by
    rw [RateLimiterProcess.interval, sound.rate]
  have fate : ∀ id < system.handled, (∃ grant ∈ system.grants, grant.id = id) ∨
      system.futures id = .discarded ∨ id ∈ system.process.promises := by
    intro id handled
    cases state : system.futures id with
    | pending => exact .inr (.inr (sound.queued.pending id handled state))
    | ready => exact .inl ((sound.queued.ready id).mp state)
    | discarded => exact .inr (.inl rfl)
  refine ⟨sound.running, ⟨handled_le_run (Nat.le_refl 0) actions, fun waits => ?_,
    sound.queued.unhandled⟩, ?_, ?_, fate, ?_, ?_, ?_, ?_⟩
  · simp only [step, sound.running, waits, if_true, Bool.false_eq_true, if_false]
    exact (acquire_handled system).1
  · cases sound.outstanding with
    | idle none idle => simp [none, idle]
    | waiting some one _ _ => simp [some, one]
  · intro due member past
    cases sound.outstanding with
    | idle _ idle => simp [idle] at member
    | waiting _ one _ late =>
        rw [one, List.mem_singleton] at member
        rw [member]
        exact late.trans (max_le past (le_refl _))
  · have both := sound.queued.granted.and sound.spaced.apart
    rwa [interval] at both
  · intro grant member id earlier
    obtain ⟨handled, before⟩ := sound.queued.behind grant member
    obtain granted | discarded | waits := fate id (earlier.trans handled)
    · exact .inl granted
    · exact .inr discarded
    · exact absurd (before id waits) (Nat.lt_asymm earlier)
  · rintro id discarded grant member rfl
    have ready := (sound.queued.ready grant.id).mpr ⟨grant, member, rfl⟩
    rw [discarded] at ready
    cases ready
  · intro grant last
    rw [← interval]
    exact sound.spaced.last grant last

/-- The second of three acquisitions is discarded, and the third has its permit. -/
example : ((init ⟨1, one_pos⟩ 0).run [.call, .call, .call, .acquire, .acquire, .acquire, .request 1,
    .discard 0, .advance 1, .fire 0]).grants = [⟨0, 0⟩, ⟨2, 1⟩] := by
  decide +kernel

end System

end Libprocess.Limiter
