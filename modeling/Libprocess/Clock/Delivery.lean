import Libprocess.Clock.Timers

/-!
# Delivery of timers

Every timer that was created is in one place: in the map under its timeout, in the batch of one
tick, or among those that `cancel` or `finalize` took out.  A tick passes the timers to the
callback in the order of the map, which is the order of the timeouts, and in the order of their
creation under each of them.
-/

namespace Libprocess.Timers

open Concurrency
open Containers (SortedMap)

/-- The order in which timers are delivered. -/
def Timer.Before (first second : Timer) : Prop :=
  first.timeout < second.timeout ∨ first.timeout = second.timeout ∧ first.id < second.id

/-- The timers of one timeout. -/
structure Filed (timeout : Time) (timers : List Timer) : Prop where
  nonempty : timers ≠ []
  timeout : ∀ timer ∈ timers, timer.timeout = timeout
  ordered : timers.Pairwise fun first second => first.id < second.id

/-- The map of the timers. -/
def Stored (timers : SortedMap Time Timer) : Prop :=
  ∀ entry ∈ timers.entries, Filed entry.1 entry.2

namespace Stored

variable {timers : SortedMap Time Timer}

section

variable (stored : Stored timers)

include stored

theorem timeout_eq {timer : Timer} {entry : Time × List Timer}
    (present : entry ∈ timers.entries) (member : timer ∈ entry.2) : timer.timeout = entry.1 :=
  (stored entry present).timeout timer member

theorem pushAt {timer : Timer}
    (fresh : ∀ other ∈ timers.values, other.id < timer.id) :
    Stored (timers.pushAt timer.timeout timer) := by
  intro entry member
  rcases SortedMap.mem_pushEntry member with old | rfl | ⟨list, present, rfl⟩
  · exact stored entry old
  · constructor
    · exact List.cons_ne_nil _ _
    · intro other single
      rw [List.mem_singleton.mp single]
    · exact List.pairwise_singleton _ _
  · have filed := stored _ present
    constructor
    · simp
    · intro other appended
      rcases List.mem_append.mp appended with old | single
      · exact filed.timeout other old
      · rw [List.mem_singleton.mp single]
    · apply List.pairwise_append.mpr
      refine ⟨filed.ordered, List.pairwise_singleton _ _, fun other old last single => ?_⟩
      rw [List.mem_singleton.mp single]
      exact fresh other (List.mem_flatMap.mpr ⟨_, present, old⟩)

theorem removeAt (time : Time) (removed : Timer → Bool) :
    Stored (timers.removeAt time removed) := by
  intro entry member
  rcases SortedMap.mem_removeEntry member with old | ⟨list, present, nonempty, rfl⟩
  · exact stored entry old
  · have filed := stored _ present
    constructor
    · exact nonempty
    · intro other kept
      exact filed.timeout other (List.mem_of_mem_filter kept)
    · exact filed.ordered.filter _

theorem after (now : Time) : Stored (timers.after now) := by
  intro entry member
  exact stored entry (List.dropWhile_subset _ member)

/-- What a tick takes out has timed out. -/
theorem timeout_le {now : Time} {timer : Timer}
    (member : timer ∈ timers.upTo now) : timer.timeout ≤ now := by
  obtain ⟨entry, taken, inside⟩ := List.mem_flatMap.mp member
  have present : entry ∈ timers.entries := List.takeWhile_subset _ taken
  rw [stored.timeout_eq present inside]
  exact SortedMap.le_of_mem_upTo_entries taken

/-- What a tick leaves has not timed out. -/
theorem lt_timeout {now : Time} {timer : Timer}
    (member : timer ∈ (timers.after now).values) : now < timer.timeout := by
  obtain ⟨entry, left, inside⟩ := List.mem_flatMap.mp member
  rw [(stored.after now).timeout_eq left inside]
  exact SortedMap.lt_of_mem_after left

end

theorem pairwise_values (entries : List (Time × List Timer))
    (sorted : entries.Pairwise fun first second => first.1 < second.1)
    (filed : ∀ entry ∈ entries, Filed entry.1 entry.2) :
    (entries.flatMap Prod.snd).Pairwise Timer.Before := by
  induction entries with
  | nil => exact .nil
  | cons head rest ih =>
      obtain ⟨least, ordered⟩ := List.pairwise_cons.mp sorted
      have headFiled := filed head List.mem_cons_self
      have restFiled : ∀ entry ∈ rest, Filed entry.1 entry.2 :=
        fun entry member => filed entry (List.mem_cons_of_mem head member)
      rw [List.flatMap_cons]
      apply List.pairwise_append.mpr
      refine ⟨?_, ih ordered restFiled, ?_⟩
      · apply headFiled.ordered.imp_of_mem
        intro first second firstMember secondMember earlier
        right
        rw [headFiled.timeout first firstMember, headFiled.timeout second secondMember]
        exact ⟨rfl, earlier⟩
      · intro first firstMember second secondMember
        obtain ⟨entry, later, inside⟩ := List.mem_flatMap.mp secondMember
        left
        rw [headFiled.timeout first firstMember, (restFiled entry later).timeout second inside]
        exact least entry later

theorem upTo_pairwise (stored : Stored timers) (now : Time) :
    (timers.upTo now).Pairwise Timer.Before :=
  pairwise_values _ (timers.sorted.sublist (List.takeWhile_sublist _))
    fun entry member => stored entry (List.takeWhile_subset _ member)

end Stored

namespace System

variable {system next : System}

/-- The timers that were passed to the callback. -/
def deliveries (system : System) : List Timer := system.delivered.flatMap Prod.snd

/-- Every timer is in one place. -/
structure Accounted (system : System) : Prop where
  stored : Stored system.clock.timers
  numbered : ∀ timer ∈ system.created, timer.id < system.clock.timerId
  ordered : system.created.Pairwise fun first second => first.id < second.id
  places : (system.deliveries ++ (system.cancelled ++ (system.cleared ++
    system.clock.timers.values))).Perm system.created
  due : ∀ batch ∈ system.delivered, ∀ timer ∈ batch.2, timer.timeout ≤ batch.1
  batches : ∀ batch ∈ system.delivered, batch.2.Pairwise Timer.Before

theorem Accounted.new : System.new.Accounted where
  stored := nofun
  numbered := nofun
  ordered := .nil
  places := .refl _
  due := nofun
  batches := nofun

section

variable (accounted : system.Accounted)

include accounted

/-- An operation that leaves the timers alone. -/
theorem Accounted.keep {clock : Clock} {delays : Multiset Time}
    (timers : clock.timers = system.clock.timers)
    (timerId : clock.timerId = system.clock.timerId) :
    { system with clock, delays }.Accounted where
  stored := by
    rw [timers]
    exact accounted.stored
  numbered := by
    rw [timerId]
    exact accounted.numbered
  ordered := accounted.ordered
  places := by
    rw [timers]
    exact accounted.places
  due := accounted.due
  batches := accounted.batches

theorem Accounted.same {clock : Clock}
    (same : ∃ currents, clock = { system.clock with currents }) :
    { system with clock }.Accounted := by
  obtain ⟨currents, rfl⟩ := same
  exact accounted.keep rfl rfl

theorem Accounted.scheduleTick {clock : Clock}
    (timers : clock.timers = system.clock.timers)
    (timerId : clock.timerId = system.clock.timerId) :
    (system.scheduled clock.scheduleTick).Accounted := by
  have kept := clock.scheduleTick_eq
  apply accounted.keep
  · rw [kept]
    exact timers
  · rw [kept]
    exact timerId

/-- The timers in the map have been created. -/
theorem Accounted.mem_created {timer : Timer}
    (member : timer ∈ system.clock.timers.values) : timer ∈ system.created :=
  accounted.places.mem_iff.mp (by simp [member])

/-- No timer is in two places. -/
theorem Accounted.apart :
    (system.deliveries ++ (system.cancelled ++ (system.cleared ++
      system.clock.timers.values))).Nodup := by
  apply accounted.places.nodup_iff.mpr
  apply accounted.ordered.imp
  intro first second earlier same
  rw [same] at earlier
  exact lt_irrefl _ earlier

end

theorem add_eq (clock : Clock) (timer : Timer) :
    (clock.add timer).1.timers = clock.timers.pushAt timer.timeout timer ∧
      (clock.add timer).1.timerId = clock.timerId := by
  have kept := Clock.scheduleTick_eq
    { clock with timers := clock.timers.pushAt timer.timeout timer }
  unfold Clock.add
  dsimp only
  split
  · rw [kept]
    exact ⟨rfl, rfl⟩
  · split
    · rw [kept]
      exact ⟨rfl, rfl⟩
    · exact ⟨rfl, rfl⟩

/-- What `Clock::timer` does to the map of the timers. -/
theorem timer_eq (clock : Clock) (process : Option ProcessId) (duration : Duration)
    (first second : Time) :
    let block := clock.timer process duration first second
    block.2.1.id = clock.timerId ∧
      block.1.timers = clock.timers.pushAt block.2.1.timeout block.2.1 ∧
      block.1.timerId = clock.timerId + 1 := by
  obtain ⟨currents, read⟩ := clock.timeoutIn_eq process duration first second
  unfold Clock.timer
  dsimp only
  rw [read]
  obtain ⟨timers, timerId⟩ := add_eq { clock with currents, timerId := clock.timerId + 1 }
    ⟨clock.timerId, (clock.timeoutIn process duration first second).2⟩
  exact ⟨rfl, timers, timerId⟩

theorem Accounted.timer (accounted : system.Accounted) {clock : Clock} {delays : Multiset Time}
    {timer : Timer} (number : timer.id = system.clock.timerId)
    (timers : clock.timers = system.clock.timers.pushAt timer.timeout timer)
    (timerId : clock.timerId = system.clock.timerId + 1) :
    { system with clock, delays, created := system.created ++ [timer] }.Accounted := by
  have fresh : ∀ other ∈ system.created, other.id < timer.id := by
    intro other member
    rw [number]
    exact accounted.numbered other member
  constructor
  · change Stored clock.timers
    rw [timers]
    apply accounted.stored.pushAt
    intro other member
    exact fresh other (accounted.mem_created member)
  · intro other member
    change other.id < clock.timerId
    rw [timerId, ← number]
    rcases List.mem_append.mp member with old | single
    · have earlier := fresh other old
      omega
    · rw [List.mem_singleton.mp single]
      omega
  · apply List.pairwise_append.mpr
    refine ⟨accounted.ordered, List.pairwise_singleton _ _, fun other old last single => ?_⟩
    rw [List.mem_singleton.mp single]
    exact fresh other old
  · change (system.deliveries ++ (system.cancelled ++ (system.cleared ++
      clock.timers.values))).Perm (system.created ++ [timer])
    rw [timers]
    calc
      (system.deliveries ++ (system.cancelled ++ (system.cleared ++ _))).Perm
          (system.deliveries ++ (system.cancelled ++ (system.cleared ++
            (timer :: system.clock.timers.values)))) :=
        (((SortedMap.values_pushAt _ _ _).append_left _).append_left _).append_left _
      _ |>.Perm (timer :: (system.deliveries ++ (system.cancelled ++ (system.cleared ++
            system.clock.timers.values)))) := by
        simp only [← List.append_assoc]
        exact List.perm_middle
      _ |>.Perm (timer :: system.created) := accounted.places.cons timer
      _ |>.Perm (system.created ++ [timer]) := (List.perm_append_singleton _ _).symm
  · exact accounted.due
  · exact accounted.batches

/-- What `Clock::cancel` does to the map of the timers. -/
theorem cancel_eq (clock : Clock) (timer : Timer) :
    (clock.cancel timer).1.timers = clock.timers.removeAt timer.timeout (·.id = timer.id) ∧
      (clock.cancel timer).1.timerId = clock.timerId := by
  unfold Clock.cancel
  split
  · exact ⟨rfl, rfl⟩
  · rename_i absent
    rw [SortedMap.removeAt_of_not_contains (Bool.eq_false_iff.mpr absent)]
    exact ⟨rfl, rfl⟩

theorem Accounted.cancel (accounted : system.Accounted) (timer : Timer) :
    { system with
      clock := (system.clock.cancel timer).1
      cancelled := system.cancelled ++
        system.clock.timers.removedAt timer.timeout (·.id = timer.id) }.Accounted := by
  obtain ⟨timers, timerId⟩ := cancel_eq system.clock timer
  constructor
  · rw [timers]
    exact accounted.stored.removeAt _ _
  · rw [timerId]
    exact accounted.numbered
  · exact accounted.ordered
  · refine List.Perm.trans ?_ accounted.places
    rw [timers]
    apply List.Perm.append_left
    rw [List.append_assoc]
    apply List.Perm.append_left
    calc
      (system.clock.timers.removedAt timer.timeout (·.id = timer.id) ++ (system.cleared ++ _)).Perm
          (system.cleared ++ (system.clock.timers.removedAt timer.timeout (·.id = timer.id) ++
            _)) := by
        rw [← List.append_assoc, ← List.append_assoc]
        exact List.perm_append_comm.append_right _
      _ |>.Perm (system.cleared ++ system.clock.timers.values) :=
        (SortedMap.values_removeAt _ _ _).append_left _
  · exact accounted.due
  · exact accounted.batches

theorem tick_eq (clock : Clock) (time reading : Time) :
    (clock.tick time reading).1.timers = clock.timers.after (clock.globalNow reading) ∧
      (clock.tick time reading).1.timerId = clock.timerId := by
  unfold Clock.tick
  dsimp only
  rw [Clock.scheduleTick_eq]
  exact ⟨rfl, rfl⟩

theorem Accounted.tick (accounted : system.Accounted) {clock : Clock} {delays : Multiset Time}
    {now : Time} (timers : clock.timers = system.clock.timers.after now)
    (timerId : clock.timerId = system.clock.timerId) :
    { system with
      clock, delays,
      delivered := system.delivered ++ [(now, system.clock.timers.upTo now)] }.Accounted := by
  constructor
  · change Stored clock.timers
    rw [timers]
    exact accounted.stored.after now
  · change ∀ timer ∈ system.created, timer.id < clock.timerId
    rw [timerId]
    exact accounted.numbered
  · exact accounted.ordered
  · refine List.Perm.trans ?_ accounted.places
    change (List.flatMap Prod.snd (system.delivered ++ [(now, system.clock.timers.upTo now)]) ++
      (system.cancelled ++ (system.cleared ++ clock.timers.values))).Perm _
    rw [timers, List.flatMap_append, List.flatMap_singleton, List.append_assoc]
    apply List.Perm.append_left
    calc
      (system.clock.timers.upTo now ++ (system.cancelled ++ (system.cleared ++ _))).Perm
          (system.cancelled ++ (system.cleared ++ (system.clock.timers.upTo now ++ _))) := by
        have moved : (system.clock.timers.upTo now ++ (system.cancelled ++ system.cleared)).Perm
            (system.cancelled ++ system.cleared ++ system.clock.timers.upTo now) :=
          List.perm_append_comm
        simpa only [List.append_assoc] using
          moved.append_right (system.clock.timers.after now).values
      _ |>.Perm (system.cancelled ++ (system.cleared ++ system.clock.timers.values)) := by
        rw [SortedMap.upTo_append_after]
  · intro batch member timer inside
    rcases List.mem_append.mp member with old | single
    · exact accounted.due batch old timer inside
    · rw [List.mem_singleton.mp single] at inside ⊢
      exact accounted.stored.timeout_le inside
  · intro batch member
    rcases List.mem_append.mp member with old | single
    · exact accounted.batches batch old
    · rw [List.mem_singleton.mp single]
      exact accounted.stored.upTo_pairwise now

theorem Accounted.finalize (accounted : system.Accounted) {clock : Clock} {timers : List Timer}
    (finalized : system.clock.finalize = some (clock, timers)) :
    { system with
      clock
      cleared := system.cleared ++ timers }.Accounted := by
  unfold Clock.finalize at finalized
  split at finalized
  · cases finalized
  · cases finalized
    constructor
    · exact nofun
    · exact accounted.numbered
    · exact accounted.ordered
    · have places := accounted.places
      simpa [deliveries, SortedMap.values, SortedMap.empty] using places
    · exact accounted.due
    · exact accounted.batches

theorem Accounted.step {label : Label} (accounted : system.Accounted)
    (stepped : system.step label = some next) : next.Accounted := by
  cases label with
  | timer process duration first second =>
      cases stepped
      obtain ⟨number, timers, timerId⟩ := timer_eq system.clock process duration first second
      exact accounted.timer number timers timerId
  | cancel timer =>
      cases stepped
      exact accounted.cancel timer
  | pause reading =>
      cases stepped
      apply accounted.keep
      · unfold Clock.pause
        split
        · rfl
        · rfl
      · unfold Clock.pause
        split
        · rfl
        · rfl
  | resume =>
      cases stepped
      unfold Clock.resume
      split
      · exact accounted.scheduleTick rfl rfl
      · exact accounted.keep rfl rfl
  | advance duration =>
      cases stepped
      unfold Clock.advance
      split
      · exact accounted.scheduleTick rfl rfl
      · exact accounted.keep rfl rfl
  | advanceProcess process duration =>
      cases stepped
      exact accounted.same (system.clock.advanceProcess_eq process duration)
  | update time =>
      cases stepped
      unfold Clock.update
      split
      · exact accounted.scheduleTick rfl rfl
      · exact accounted.keep rfl rfl
  | updateProcess process time update =>
      cases stepped
      exact accounted.same (system.clock.updateProcess_eq process time update)
  | order source target reading =>
      cases stepped
      exact accounted.same (system.clock.order_eq source target reading)
  | tick time reading =>
      simp only [System.step] at stepped
      split at stepped
      · cases stepped
        obtain ⟨timers, timerId⟩ := tick_eq system.clock time reading
        exact accounted.tick timers timerId
      · cases stepped
  | settle =>
      cases stepped
      unfold Clock.settle
      split
      · exact accounted.keep rfl rfl
      · exact accounted.keep rfl rfl
  | finalize =>
      obtain ⟨⟨clock, timers⟩, finalized, rfl⟩ := Option.map_eq_some_iff.mp stepped
      exact accounted.finalize finalized

theorem accounted_of_reachable (reached : machine.Reachable system) : system.Accounted := by
  apply reached.invariant Accounted
  · rintro state rfl
    exact Accounted.new
  · intro state label next accounted _ stepped
    exact accounted.step stepped

/-- A timer that is cancelled while it is in the map is recorded, and stays so. -/
theorem Accounted.mem_cancelled (accounted : system.Accounted) {timer : Timer}
    (member : timer ∈ system.clock.timers.values)
    (stepped : system.step (.cancel timer) = some next) : timer ∈ next.cancelled := by
  cases stepped
  obtain ⟨entry, present, inside⟩ := List.mem_flatMap.mp member
  apply List.mem_append_right
  rw [accounted.stored.timeout_eq present inside]
  exact SortedMap.mem_removedValues system.clock.timers.sorted present inside (by simp)

theorem cancelled_subset {label : Label} (stepped : system.step label = some next) :
    system.cancelled ⊆ next.cancelled := by
  cases label with
  | cancel timer =>
      cases stepped
      exact List.subset_append_left _ _
  | tick time reading =>
      simp only [System.step] at stepped
      split at stepped
      · cases stepped
        exact List.Subset.refl _
      · cases stepped
  | finalize =>
      obtain ⟨block, -, rfl⟩ := Option.map_eq_some_iff.mp stepped
      exact List.Subset.refl _
  | timer | pause | resume | advance | advanceProcess | update | updateProcess | order | settle =>
      cases stepped
      exact List.Subset.refl _

/-- Timers are delivered in a tick only, and its time is that of the global clock. -/
theorem delivered_step {label : Label} (stepped : system.step label = some next) :
    next.delivered = system.delivered ∨ ∃ time reading timers, label = .tick time reading ∧
      next.delivered = system.delivered ++ [(system.clock.globalNow reading, timers)] := by
  cases label with
  | tick time reading =>
      simp only [System.step] at stepped
      split at stepped <;> cases stepped
      exact .inr ⟨time, reading, _, rfl, rfl⟩
  | finalize =>
      obtain ⟨block, -, rfl⟩ := Option.map_eq_some_iff.mp stepped
      exact .inl rfl
  | cancel | timer | pause | resume | advance | advanceProcess | update | updateProcess | order
  | settle =>
      cases stepped
      exact .inl rfl

/-- The timers are numbered in the order of their creation.  A timer is passed to the callback
once at most, in a tick whose time has reached its timeout, and in the order of the timeouts and
of the creation.  The time of a tick is the global time when it takes the timers.  A timer that is
cancelled while it is in the map is not delivered any more, and a timer that was neither delivered
nor taken out is in the map under its timeout. -/
theorem timers_delivered (reached : machine.Reachable system) :
    (system.created.Pairwise fun first second => first.id < second.id) ∧
    (∀ timer ∈ system.deliveries, timer ∈ system.created ∧ system.deliveries.count timer = 1) ∧
    (∀ batch ∈ system.delivered, (∀ timer ∈ batch.2, timer.timeout ≤ batch.1) ∧
      batch.2.Pairwise Timer.Before) ∧
    (∀ label next, system.step label = some next → next.delivered = system.delivered ∨
      ∃ time reading timers, label = .tick time reading ∧
        next.delivered = system.delivered ++ [(system.clock.globalNow reading, timers)]) ∧
    (∀ timer ∈ system.clock.timers.values, ∀ next, system.step (.cancel timer) = some next →
      ∀ later, machine.Leads next later → timer ∉ later.deliveries) ∧
    ∀ timer ∈ system.created, timer ∉ system.deliveries → timer ∉ system.cancelled →
      timer ∉ system.cleared →
      ∃ timers, (timer.timeout, timers) ∈ system.clock.timers.entries ∧ timer ∈ timers := by
  have accounted := accounted_of_reachable reached
  refine ⟨accounted.ordered, fun timer member => ⟨?_, ?_⟩, fun batch member => ?_,
    fun _ _ => delivered_step, fun timer member next stepped later path => ?_,
    fun timer created undelivered uncancelled uncleared => ?_⟩
  · exact accounted.places.mem_iff.mp (List.mem_append_left _ member)
  · exact List.count_eq_one_of_mem (List.nodup_append.mp accounted.apart).1 member
  · exact ⟨accounted.due batch member, accounted.batches batch member⟩
  · have moved : machine.step system (.cancel timer) = some next := stepped
    have reachedNext : machine.Reachable next := .step reached True.intro moved
    have recorded : timer ∈ later.cancelled :=
      path.preserves (fun state => timer ∈ state.cancelled) reachedNext
        (accounted.mem_cancelled member stepped)
        fun state label after _ present moved => cancelled_subset moved present
    have apart := (accounted_of_reachable (reachedNext.leads path)).apart
    intro delivered
    exact (List.nodup_append.mp apart).2.2 timer delivered timer
      (List.mem_append_left _ recorded) rfl
  · have placed := accounted.places.mem_iff.mpr created
    simp only [List.mem_append, undelivered, uncancelled, uncleared, false_or] at placed
    obtain ⟨entry, present, inside⟩ := List.mem_flatMap.mp placed
    refine ⟨entry.2, ?_, inside⟩
    rw [accounted.stored.timeout_eq present inside]
    exact present

/-- Three timers, two of them with the same timeout. -/
def pairSchedule : List Label :=
  [.timer none 20 0 0, .timer none 11 0 0, .timer (some 0) 10 1 1]

/-- A tick at time twelve delivers the two. -/
theorem timers_delivered_pair : ∃ system, machine.Reachable system ∧
    system.delivered = [(12, [⟨2, 11⟩, ⟨3, 11⟩])] ∧
    ∀ next, system.step (.cancel ⟨1, 20⟩) = some next →
      ∀ later, machine.Leads next later → ⟨1, 20⟩ ∉ later.deliveries := by
  obtain ⟨system, ran, delivered, values⟩ :
      ∃ system ∈ machine.run .new (pairSchedule ++ [.tick 11 12]),
      system.delivered = [(12, [⟨2, 11⟩, ⟨3, 11⟩])] ∧ system.clock.timers.values = [⟨1, 20⟩] := by
    decide +kernel
  have reached : machine.Reachable system := .of_run rfl ran
  refine ⟨system, reached, delivered, (timers_delivered reached).2.2.2.2.1 _ ?_⟩
  rw [values]
  exact List.mem_singleton.mpr rfl

end System

end Libprocess.Timers
