import Libprocess.TimeSeries.Positions
import Mathlib.Data.List.InsertIdx

/-!
# Retention

What one series keeps: the events are the resets of its candidate and the values that are there
before `sparsify` and not after it.
-/

namespace Libprocess.TimeSeries

open Containers (MapNode)

variable {T : Type}

inductive Call (T : Type) where
  | set (now : Int) (value : T) (time : Int)
  | truncate (now : Int)

/-- The loss of the candidate, or the erasure of a value by `sparsify`, with the times that are
kept. -/
inductive Event where
  | reset
  | removed (time : Int) (kept : List Int)
  deriving DecidableEq, Repr

/-- The times of the values. -/
def times (series : TimeSeries T) : List Int := series.values.map (·.key)

/-- The reset between two states of a series. -/
def lost (before after : TimeSeries T) : List Event :=
  if before.index.isSome ∧ after.index = none then [.reset] else []

/-- A round of `sparsify` begins at the second value. -/
def Restarts (series : TimeSeries T) : Prop :=
  ∀ index, series.index = some index → series.values.length / 2 < index

instance (series : TimeSeries T) : Decidable series.Restarts :=
  match found : series.index with
  | none => .isTrue (by simp [Restarts, found])
  | some index => decidable_of_iff (series.values.length / 2 < index) (by simp [Restarts, found])

/-- The times that are missing after `sparsify`. -/
def missing (before after : TimeSeries T) : List Event :=
  (before.times.filter (· ∉ after.times)).map (.removed · after.times)

/-- What `sparsify` has done. -/
def sparsified (before after : TimeSeries T) : List Event :=
  (if before.capacity < before.values.length ∧ before.Restarts then [.reset] else []) ++
    missing before after

/-- There is no other series. -/
def nowhere : Nat → Option Int := fun _ => none

def Call.apply (series : TimeSeries T) (fresh : Nat) : Call T → Option (TimeSeries T)
  | .set now value time => series.set nowhere fresh now value time
  | .truncate now => series.truncate nowhere now

/-- The events of a call, between the series before and after it. -/
def Call.events (series result : TimeSeries T) (fresh : Nat) : Call T → List Event
  | .set now value time =>
      let inserted := series.insert fresh value time
      match inserted.truncate nowhere now with
      | none => []
      | some truncated => lost series inserted ++ lost inserted truncated ++
          sparsified truncated result
  | .truncate _ => lost series result

/-- The calls one after the other, with their events; a call makes one node at most. -/
def observe (series : TimeSeries T) (fresh : Nat) : List (Call T) →
    Option (TimeSeries T × List Event)
  | [] => some (series, [])
  | call :: rest => do
      let next ← call.apply series fresh
      let result ← observe next (fresh + 1) rest
      some (result.1, call.events series next fresh ++ result.2)

/-! ## What is claimed of the events -/

/-- The value that is missing is neither the oldest nor the newest. -/
def Interior (events : List Event) : Prop :=
  ∀ time kept, .removed time kept ∈ events →
    (∃ older ∈ kept, older < time) ∧ ∃ newer ∈ kept, time < newer

/-- Between two values removed one after the other, without a reset, exactly one is left. -/
def Separated (events : List Event) : Prop :=
  ∀ before after first second kept later,
    events = before ++ .removed first kept :: .removed second later :: after →
      first < second ∧ (later.filter fun time => first < time ∧ time < second).length = 1

/-- Exactly what expired is removed by `truncate`, unless everything expired. -/
def TruncatesExactly (series : TimeSeries T) : Prop :=
  ∀ now, ∃ result, series.truncate nowhere now = some result ∧
    result.values =
      if ∀ node ∈ series.values, node.key ≤ now - series.window then series.values
      else series.values.filter (now - series.window < ·.key)

/-- `get` returns what is retained in the range, in the order of the times.  A range without one of
its ends goes from the epoch or up to the last time, and is not empty then. -/
def Returns (series : TimeSeries T) : Prop :=
  ∀ start stop : Option Int,
    start.isSome ∧ stop.isSome ∨ start.getD epoch ≤ stop.getD maxTime →
    ∃ result, series.get start stop = some result ∧
      result = (series.values.filter fun node =>
        start.getD epoch ≤ node.key ∧ node.key ≤ stop.getD maxTime).map
          (fun node => (node.key, node.value)) ∧
      (result.map Prod.fst).Pairwise (· < ·)

section Events

variable {series result : TimeSeries T} {fresh : Nat} {now time : Int} {value : T}
  {events : List Event} {event : Event}

theorem interior_append {others : List Event} (first : Interior events) (second : Interior others) :
    Interior (events ++ others) := by
  intro time kept member
  cases List.mem_append.mp member with
  | inl before => exact first time kept before
  | inr behind => exact second time kept behind

/-- One event more: it is compared with the last. -/
theorem separated_concat (separated : Separated events)
    (last : ∀ first kept second later, events.getLast? = some (.removed first kept) →
      event = .removed second later →
      first < second ∧ (later.filter fun time => first < time ∧ time < second).length = 1) :
    Separated (events ++ [event]) := by
  intro before after first second kept later whole
  cases after.eq_nil_or_concat with
  | inl nothing =>
      subst nothing
      have cut : events ++ [event] = (before ++ [.removed first kept]) ++ [.removed second later] := by
        simpa using whole
      obtain ⟨start, final⟩ := List.append_inj' cut rfl
      exact last first kept second later (by simp [start]) (List.cons.inj final).1
  | inr further =>
      obtain ⟨rest, other, same⟩ := further
      subst same
      have cut : events ++ [event] =
          (before ++ .removed first kept :: .removed second later :: rest) ++ [other] := by
        simpa using whole
      exact separated before rest first second kept later (List.append_inj' cut rfl).1

end Events

section Spacing

variable {series result : TimeSeries T} {fresh index : Nat} {now time erasedTime : Int} {value : T}
  {events : List Event} {node : MapNode Int T}

/-- The time that was erased last lies before the value in front of the candidate, and behind all
that are in front of that. -/
inductive Spaced (series : TimeSeries T) (time : Int) : Prop where
  | intro {left rest : List Int} {middle : Int} : series.times = left ++ middle :: rest →
      series.index = some (left.length + 1) → (∀ older ∈ left, older < time) → time < middle →
      Spaced series time

structure Recorded (events : List Event) (series : TimeSeries T) : Prop where
  interior : Interior events
  separated : Separated events
  spaced : ∀ time kept, events.getLast? = some (.removed time kept) → series.Spaced time

theorem recorded_reset (interior : Interior events) (separated : Separated events) :
    Recorded (events ++ [.reset]) series where
  interior := interior_append interior (by simp [Interior])
  separated := separated_concat separated (by simp)
  spaced := by simp

/-- A change that keeps the candidate keeps what is around it. -/
theorem Recorded.lost (recorded : Recorded events series)
    (kept : ∀ index, result.index = some index → ∀ time, series.Spaced time → result.Spaced time) :
    Recorded (events ++ lost series result) result := by
  unfold TimeSeries.lost
  split
  · exact recorded_reset recorded.interior recorded.separated
  · rename_i remains
    rw [List.append_nil]
    refine ⟨recorded.interior, recorded.separated, ?_⟩
    intro time rest last
    have spaced := recorded.spaced time rest last
    cases spaced with
    | intro whole before older newer =>
    cases found : result.index with
    | none => simp [before, found] at remains
    | some index => exact kept index found time (.intro whole before older newer)

theorem spaced_insert (sorted : series.values.Pairwise (·.key < ·.key))
    (kept : (series.insert fresh value time).index = some index)
    (spaced : series.Spaced erasedTime) : (series.insert fresh value time).Spaced erasedTime := by
  obtain ⟨before, extended⟩ := extended_of_insert sorted kept
  cases spaced with
  | @intro left rest middle whole position older newer =>
  have same : (series.insert fresh value time).index = some (left.length + 1) := by
    rw [kept, ← before, position]
  unfold times at whole
  generalize grown : (series.insert fresh value time).values = values at extended
  cases extended with
  | @written start last split final =>
      apply Spaced.intro _ same older newer
      · exact rest
      · rw [times, grown, ← whole, split]
        simp
  | added above =>
      apply Spaced.intro _ same older newer
      · exact rest ++ [time]
      · rw [times, grown, List.map_append, whole]
        simp

theorem spaced_truncated (truncated : series.Truncated now result)
    (kept : result.index = some index) (spaced : series.Spaced erasedTime) :
    result.Spaced erasedTime := by
  obtain ⟨positive, gone, whole, before⟩ := truncated.index index kept
  cases spaced with
  | @intro left rest middle split position older newer =>
  have same : left.length + 1 = gone.length + index := by
    rw [position] at before
    exact Option.some.inj before
  have cut : gone.map (·.key) ++ result.times = left ++ middle :: rest := by
    rw [← split, times, times, whole, List.map_append]
  obtain ⟨front, extra, rfl, short⟩ : ∃ front extra, left = front ++ extra ∧
      front.length = gone.length :=
    ⟨left.take gone.length, left.drop gone.length, (List.take_append_drop _ _).symm,
      List.length_take_of_le (by omega)⟩
  rw [List.append_assoc] at cut
  obtain ⟨_, tail⟩ := List.append_inj cut (by rw [List.length_map, short])
  apply Spaced.intro tail _ _ newer
  · rw [kept]
    rw [List.length_append] at same
    congr 1
    omega
  · intro time member
    exact older time (List.mem_append_right _ member)

/-- The values around a candidate. -/
theorem times_candidate (candidate : series.Candidate index node)
    (further : index + 2 < series.values.length) : ∃ left middle rest,
      series.times = left ++ node.key :: middle :: rest ∧ left.length = index := by
  have split : series.values = series.values.take index ++ series.values.drop index :=
    (List.take_append_drop _ _).symm
  have first : series.values.drop index = node :: series.values.drop (index + 1) := by
    obtain ⟨bound, found⟩ := List.getElem?_eq_some_iff.mp candidate.found
    rw [List.drop_eq_getElem_cons bound, found]
  have second : series.values.drop (index + 1) =
      series.values[index + 1] :: series.values.drop (index + 2) :=
    List.drop_eq_getElem_cons (by omega)
  refine ⟨(series.values.take index).map (·.key), series.values[index + 1].key,
    (series.values.drop (index + 2)).map (·.key), ?_, ?_⟩
  · rw [times]
    conv => left; rw [split, first, second, List.map_append, List.map_cons, List.map_cons]
  · rw [List.length_map, List.length_take_of_le]
    omega

/-- Only one of the times is missing when it is taken out. -/
theorem filter_not_mem {left rest : List Int} {first : Int}
    (distinct : (left ++ first :: rest).Nodup) :
    (left ++ first :: rest).filter (· ∉ left ++ rest) = [first] := by
  have others : ∀ times ⊆ left ++ rest, times.filter (· ∉ left ++ rest) = [] := by
    intro times inside
    rw [List.filter_eq_nil_iff]
    intro time member
    simp [inside member]
  have own : first ∉ left ++ rest :=
    (List.nodup_cons.mp ((List.perm_middle.nodup_iff).mp distinct)).1
  rw [List.filter_append, List.filter_cons_of_pos (by simpa using own),
    others left (List.subset_append_left _ _), others rest (List.subset_append_right _ _),
    List.nil_append]

theorem filter_between {left rest : List Int} {first middle second : Int}
    (sorted : (left ++ middle :: second :: rest).Pairwise (· < ·))
    (older : ∀ time ∈ left, time < first) (newer : first < middle) :
    (left ++ middle :: rest).filter (fun time => first < time ∧ time < second) = [middle] := by
  simp only [List.pairwise_append, List.pairwise_cons, List.mem_cons, forall_eq_or_imp] at sorted
  obtain ⟨_, ⟨⟨next, _⟩, later, _⟩, _⟩ := sorted
  rw [List.filter_append, List.filter_cons_of_pos (by simp [newer, next])]
  have none : left.filter (fun time => first < time ∧ time < second) = [] := by
    rw [List.filter_eq_nil_iff]
    intro time member
    have before := older time member
    simp only [decide_eq_true_eq]
    omega
  have beyond : rest.filter (fun time => first < time ∧ time < second) = [] := by
    rw [List.filter_eq_nil_iff]
    intro time member
    have behind := later time member
    simp only [decide_eq_true_eq]
    omega
  rw [none, beyond, List.nil_append]

/-- The erasure of a candidate is recorded. -/
theorem Recorded.erased (recorded : Recorded events series)
    (tidy : MapNode.Tidy fresh series.values) (candidate : series.Candidate index node)
    (further : index + 2 < series.values.length) :
    Recorded (events ++ [.removed node.key (series.times.eraseIdx index)])
      (series.erased index) := by
  obtain ⟨left, middle, rest, whole, length⟩ := times_candidate candidate further
  have sorted : series.times.Pairwise (· < ·) := List.pairwise_map.mpr tidy.sorted
  have kept : series.times.eraseIdx index = left ++ middle :: rest := by
    rw [whole, List.eraseIdx_append_of_length_le (by omega), length, Nat.sub_self]
    rfl
  rw [whole] at sorted
  have parts := sorted
  simp only [List.pairwise_append, List.pairwise_cons, List.mem_cons, forall_eq_or_imp] at parts
  obtain ⟨_, ⟨⟨next, _⟩, _⟩, apart⟩ := parts
  constructor
  · apply interior_append recorded.interior
    intro time others member
    simp only [List.mem_singleton, Event.removed.injEq] at member
    obtain ⟨rfl, rfl⟩ := member
    rw [kept]
    constructor
    · cases left with
      | nil =>
          rw [← length] at candidate
          exact absurd candidate.positive (Nat.lt_irrefl 0)
      | cons oldest others => exact ⟨oldest, by simp, (apart oldest (by simp)).1⟩
    · exact ⟨middle, by simp, next⟩
  · apply separated_concat recorded.separated
    intro first others second later last same
    simp only [Event.removed.injEq] at same
    obtain ⟨rfl, rfl⟩ := same
    cases recorded.spaced first others last with
    | @intro front others between split position older newer =>
    have count : front.length + 1 = index := by
      rw [candidate.kept] at position
      exact (Option.some.inj position).symm
    -- The value between the two is the last in front of the candidate.
    have cut : (front ++ [between]) ++ others = left ++ node.key :: middle :: rest := by
      rw [← whole, split]
      simp
    obtain ⟨rfl, rfl⟩ := List.append_inj cut (by simp [count, length])
    rw [List.append_assoc, List.singleton_append] at sorted
    have between_ := filter_between sorted older newer
    constructor
    · exact lt_trans newer (apart between (by simp)).1
    · rw [kept, List.append_assoc, List.singleton_append, between_]
      rfl
  · intro time others last
    simp only [List.getLast?_append, List.getLast?_singleton, Option.some_or, Option.some.injEq,
      Event.removed.injEq] at last
    obtain ⟨rfl, _⟩ := last
    apply @Spaced.intro _ _ _ left rest middle _ _ _ next
    · rw [← kept, times, TimeSeries.erased, times, List.eraseIdx_map]
    · rw [length]
      rfl
    · intro older member
      exact (apart older member).1

end Spacing

section Calls

variable {series result : TimeSeries T} {fresh : Nat} {now time : Int} {value : T}
  {events : List Event}

theorem restart_of_not (continues : ¬ series.Restarts) : series.restart = series := by
  unfold Restarts at continues
  unfold restart
  cases found : series.index with
  | none => simp [found] at continues
  | some index =>
      simp only [found, Option.some.injEq, forall_eq'] at continues
      simp [continues]

/-- The value in the middle of a series that is taken out is the one that is missing. -/
theorem missing_erased {index : Nat} {node : MapNode Int T} (tidy : MapNode.Tidy fresh series.values)
    (candidate : series.Candidate index node) (further : index + 2 < series.values.length) :
    missing series (series.erased index) = [.removed node.key (series.times.eraseIdx index)] := by
  obtain ⟨left, middle, rest, whole, length⟩ := times_candidate candidate further
  have kept : (series.erased index).times = series.times.eraseIdx index := by
    rw [times, times, TimeSeries.erased, List.eraseIdx_map]
  have split : series.times.eraseIdx index = left ++ middle :: rest := by
    rw [whole, List.eraseIdx_append_of_length_le (by omega), length, Nat.sub_self]
    rfl
  have sorted : series.times.Pairwise (· < ·) := List.pairwise_map.mpr tidy.sorted
  have distinct : series.times.Nodup := sorted.imp ne_of_lt
  rw [missing, kept, split]
  rw [whole] at distinct ⊢
  rw [filter_not_mem distinct]
  rfl

/-- A series without one value keeps the oldest and the newest. -/
structure Inner (before after : TimeSeries T) : Prop where
  sublist : after.values.Sublist before.values
  oldest : after.values.head? = before.values.head?
  newest : after.values.getLast? = before.values.getLast?

theorem inner_erased {index : Nat} (positive : 0 < index)
    (further : index + 2 < series.values.length) : Inner series (series.erased index) where
  sublist := List.eraseIdx_sublist _ _
  oldest := by
    rw [TimeSeries.erased, List.head?_eq_getElem?, List.getElem?_eraseIdx_of_lt positive,
      List.head?_eq_getElem?]
  newest := by
    have behind : index ≤ (series.values.eraseIdx index).length - 1 := by
      rw [List.length_eraseIdx_of_lt (by omega)]
      omega
    rw [TimeSeries.erased, List.getLast?_eq_getElem?, List.getElem?_eraseIdx_of_ge behind,
      List.getLast?_eq_getElem?, List.length_eraseIdx_of_lt (by omega)]
    congr 1
    omega

/-- What `sparsify` does to a series of four values at least, and its events. -/
theorem Recorded.sparsify (recorded : Recorded events series) (aligned : series.Aligned fresh)
    (large : 4 ≤ series.capacity) (bounded : series.values.length ≤ series.capacity + 1) :
    ∃ result, series.sparsify = some result ∧ Inner series result ∧
      Recorded (events ++ sparsified series result) result := by
  by_cases fits : series.values.length ≤ series.capacity
  · refine ⟨series, sparsifyLoop_of_le _ fits, ⟨List.Sublist.refl _, rfl, rfl⟩, ?_⟩
    have nothing : sparsified series series = [] := by
      simp [sparsified, missing, Nat.not_lt.mpr fits]
    rw [nothing, List.append_nil]
    exact recorded
  · have length : series.values.length = series.capacity + 1 := by omega
    obtain ⟨index, node, candidate, _, done, size⟩ := sparsify_spec aligned (by omega) length
    have half := candidate.half
    have tidy : MapNode.Tidy fresh series.restart.values := by
      rw [restart_values]
      exact aligned.tidy
    have further : index + 2 < series.restart.values.length := by
      rw [restart_values] at half ⊢
      omega
    have begun : Recorded (events ++ if series.Restarts then [.reset] else []) series.restart := by
      split
      · exact recorded_reset recorded.interior recorded.separated
      · rename_i continues
        rw [List.append_nil, restart_of_not continues]
        exact recorded
    have seen : sparsified series (series.restart.erased index) =
        (if series.Restarts then [.reset] else []) ++
          [.removed node.key (series.restart.times.eraseIdx index)] := by
      have same : missing series (series.restart.erased index) =
          missing series.restart (series.restart.erased index) := by
        simp only [missing, times, restart_values]
      rw [sparsified, same, missing_erased tidy candidate further]
      simp [length]
    have inner := inner_erased candidate.positive further
    have values : series.restart.values = series.values := restart_values
    refine ⟨_, done, ⟨values ▸ inner.sublist, ?_, ?_⟩, ?_⟩
    · rw [inner.oldest, values]
    · rw [inner.newest, values]
    · rw [seen, ← List.append_assoc]
      exact begun.erased tidy candidate further

/-- The series is in order, and its events are as claimed. -/
structure Sound (fresh : Nat) (window : Int) (capacity : Nat) (events : List Event)
    (series : TimeSeries T) : Prop where
  coherent : series.Coherent fresh
  window : series.window = window
  capacity : series.capacity = capacity
  recorded : Recorded events series

variable {window : Int} {capacity : Nat}

theorem Sound.set (sound : Sound fresh window capacity events series) (large : 4 ≤ capacity)
    (now : Int) (value : T) (time : Int) : ∃ truncated result,
      (series.insert fresh value time).truncate nowhere now = some truncated ∧
        series.set nowhere fresh now value time = some result ∧ result.values ≠ [] ∧
        truncated.Inner result ∧ Sound (fresh + 1) window capacity
          (events ++ (Call.set now value time).events series result fresh) result := by
  have inserted := sound.coherent.insert value time
  obtain ⟨truncated, found, truncation⟩ := truncate_spec inserted nowhere now
  have steady : ¬ series.Slips now time := by
    intro slips
    have three := slips.capacity
    rw [sound.capacity] at three
    omega
  obtain ⟨result, done, coherent, filled, steps, same⟩ :=
    set_coherent nowhere value sound.coherent steady
  have size : truncated.capacity = series.capacity := truncation.capacity
  have first : Recorded (events ++ lost series (series.insert fresh value time))
      (series.insert fresh value time) :=
    sound.recorded.lost fun index kept _ spaced =>
      spaced_insert sound.coherent.tidy.sorted kept spaced
  have second : Recorded (events ++ lost series (series.insert fresh value time) ++
      lost (series.insert fresh value time) truncated) truncated :=
    first.lost fun index kept _ spaced => spaced_truncated truncation kept spaced
  obtain ⟨last, sparsified, inner, recorded⟩ := second.sparsify (inserted.truncated truncation)
    (by rw [size, sound.capacity]; exact large)
    (by rw [size]; exact sound.coherent.length_inserted truncation)
  have equal : last = result := by
    rw [TimeSeries.set, found, Option.bind_some, sparsified] at done
    exact Option.some.inj done
  subst equal
  refine ⟨truncated, last, found, done, filled, inner, coherent, steps.trans sound.window,
    same.trans sound.capacity, ?_⟩
  simpa only [Call.events, found, List.append_assoc] using recorded

theorem Sound.truncate (sound : Sound fresh window capacity events series) (now : Int) :
    ∃ result, series.truncate nowhere now = some result ∧
      Sound (fresh + 1) window capacity
        (events ++ (Call.truncate now : Call T).events series result fresh) result := by
  obtain ⟨result, found, coherent, truncation⟩ := truncate_coherent nowhere now sound.coherent
  have recorded : Recorded (events ++ lost series result) result :=
    sound.recorded.lost fun index kept _ spaced => spaced_truncated truncation kept spaced
  refine ⟨result, found, coherent.mono (Nat.le_succ _), truncation.window.trans sound.window,
    truncation.capacity.trans sound.capacity, ?_⟩
  exact recorded

/-- Every run of calls is defined and sound. -/
theorem Sound.observe {calls : List (Call T)}
    (sound : Sound fresh window capacity events series) (large : 4 ≤ capacity) :
    ∃ result more, series.observe fresh calls = some (result, more) ∧
      Sound (fresh + calls.length) window capacity (events ++ more) result := by
  induction calls generalizing fresh events series with
  | nil => exact ⟨series, [], rfl, by simpa using sound⟩
  | cons call rest ih =>
      have stepped : ∃ next, call.apply series fresh = some next ∧
          Sound (fresh + 1) window capacity (events ++ call.events series next fresh) next := by
        cases call with
        | set now value time =>
            obtain ⟨_, next, _, done, _, _, kept⟩ := sound.set large now value time
            exact ⟨next, done, kept⟩
        | truncate now => exact sound.truncate now
      obtain ⟨next, done, kept⟩ := stepped
      obtain ⟨result, more, observed, last⟩ := ih kept
      refine ⟨result, call.events series next fresh ++ more, ?_, ?_⟩
      · simp [TimeSeries.observe, done, observed]
      · rw [List.length_cons, ← List.append_assoc, Nat.add_comm rest.length, ← Nat.add_assoc]
        exact last

theorem sound_init (window : Int) (large : 4 ≤ capacity) :
    Sound 0 window capacity [] (init window capacity : TimeSeries T) where
  coherent := coherent_init window capacity
  window := rfl
  capacity := max_eq_right (by omega)
  recorded := ⟨by simp [Interior], by simp [Separated], by simp⟩

theorem Aligned.truncatesExactly (aligned : series.Aligned fresh) : series.TruncatesExactly := by
  intro now
  obtain ⟨result, found, truncated⟩ := truncate_spec aligned nowhere now
  refine ⟨result, found, ?_⟩
  have sorted := aligned.tidy.sorted
  have all : series.upperBound (now - series.window) = [] ↔
      ∀ node ∈ series.values, node.key ≤ now - series.window := by
    rw [upperBound_eq_filter sorted, List.filter_eq_nil_iff]
    simp
  rw [truncated.values, remaining]
  by_cases every : ∀ node ∈ series.values, node.key ≤ now - series.window
  · rw [if_pos (all.mpr every), if_pos every]
  · rw [if_neg (mt all.mp every), if_neg every, upperBound_eq_filter sorted]

theorem filter_append_filter {values : List (MapNode Int T)}
    (sorted : values.Pairwise (·.key < ·.key)) (bound : Int) :
    values.filter (·.key ≤ bound) ++ values.filter (bound < ·.key) = values := by
  induction values with
  | nil => rfl
  | cons first rest ih =>
      obtain ⟨above, sorted⟩ := List.pairwise_cons.mp sorted
      by_cases low : first.key ≤ bound
      · rw [List.filter_cons_of_pos (by simpa using low),
          List.filter_cons_of_neg (by simpa using low), List.cons_append, ih sorted]
      · have none : rest.filter (·.key ≤ bound) = [] := by
          rw [List.filter_eq_nil_iff]
          intro node member
          have later := above node member
          rw [decide_eq_true_eq]
          omega
        have tail := ih sorted
        rw [none, List.nil_append] at tail
        rw [List.filter_cons_of_neg (by simpa using low),
          List.filter_cons_of_pos (by simpa using low), none, List.nil_append, tail]

/-- What is behind the lower bound is not before it. -/
theorem lowerBound_eq_filter {values : List (MapNode Int T)}
    (sorted : values.Pairwise (·.key < ·.key)) (bound : Int) :
    values.dropWhile (·.key < bound) = values.filter (bound ≤ ·.key) := by
  have upper := @upperBound_eq_filter T ⟨0, 0, values, none, none⟩ sorted (bound - 1)
  simpa only [upperBound, Int.le_sub_one_iff, Int.sub_one_lt_iff] using upper

theorem get_eq_filter (sorted : series.values.Pairwise (·.key < ·.key)) {start stop : Option Int}
    (ordered : start.getD epoch ≤ stop.getD maxTime) : series.get start stop =
      some ((series.values.filter fun node =>
        start.getD epoch ≤ node.key ∧ node.key ≤ stop.getD maxTime).map
          fun node => (node.key, node.value)) := by
  have valid : inverted start stop = false := by
    cases start with
    | none => rfl
    | some start =>
        cases stop with
        | none => rfl
        | some stop => simpa [inverted] using ordered
  have lower := lowerBound_eq_filter sorted (start.getD epoch)
  have whole := filter_append_filter (sorted.filter fun node => start.getD epoch ≤ node.key)
    (stop.getD maxTime)
  have upper : (series.values.filter fun node => start.getD epoch ≤ node.key).filter
      (stop.getD maxTime < ·.key) = series.upperBound (stop.getD maxTime) := by
    rw [upperBound_eq_filter sorted, List.filter_filter]
    apply List.filter_congr
    intro node _
    rw [← Bool.decide_and, decide_eq_decide]
    omega
  have middle : (series.values.filter fun node => start.getD epoch ≤ node.key).filter
      (·.key ≤ stop.getD maxTime) = series.values.filter fun node =>
        start.getD epoch ≤ node.key ∧ node.key ≤ stop.getD maxTime := by
    rw [List.filter_filter]
    apply List.filter_congr
    intro node _
    rw [← Bool.decide_and, decide_eq_decide]
    omega
  rw [upper, middle, ← lower] at whole
  unfold get
  rw [valid]
  simp only [Bool.false_eq_true, if_false]
  rw [← whole, List.length_append, if_pos (Nat.le_add_left _ _), Nat.add_sub_cancel,
    List.take_left]

theorem Aligned.returns (aligned : series.Aligned fresh) : series.Returns := by
  intro start stop valid
  have sorted := aligned.tidy.sorted
  have inorder : (((series.values.filter fun node =>
      start.getD epoch ≤ node.key ∧ node.key ≤ stop.getD maxTime).map
        fun node => (node.key, node.value)).map Prod.fst).Pairwise (· < ·) := by
    rw [List.map_map, List.pairwise_map]
    exact sorted.filter _
  by_cases ordered : start.getD epoch ≤ stop.getD maxTime
  · exact ⟨_, get_eq_filter sorted ordered, rfl, inorder⟩
  · have both := valid.resolve_right ordered
    obtain ⟨first, rfl⟩ := Option.isSome_iff_exists.mp both.1
    obtain ⟨last, rfl⟩ := Option.isSome_iff_exists.mp both.2
    simp only [Option.getD_some] at ordered
    have nothing : series.values.filter (fun node =>
        (some first).getD epoch ≤ node.key ∧ node.key ≤ (some last).getD maxTime) = [] := by
      rw [List.filter_eq_nil_iff]
      intro node _
      simp only [Option.getD_some, decide_eq_true_eq]
      omega
    refine ⟨[], ?_, ?_, List.Pairwise.nil⟩
    · simp [get, inverted, not_le.mp ordered]
    · rw [nothing]
      rfl

end Calls

/-- After any calls on one series with a capacity of four or more: a further value leaves at least
one and no more than the capacity; `sparsify` has left the oldest and the newest value, and between
resets every other one; `truncate` removes exactly what expired, unless everything did; and `get`
returns what is retained in a range, in order. -/
theorem retention {window : Int} {capacity : Nat} (large : 4 ≤ capacity) (calls : List (Call T)) :
    ∃ series events, observe (init window capacity) 0 calls = some (series, events) ∧
      Interior events ∧ Separated events ∧ series.Returns ∧ series.TruncatesExactly ∧
      ∀ now value time, (series.insert calls.length value time).TruncatesExactly ∧
        ∃ truncated next,
          (series.insert calls.length value time).truncate nowhere now = some truncated ∧
          series.set nowhere calls.length now value time = some next ∧ truncated.Inner next ∧
          1 ≤ next.values.length ∧ next.values.length ≤ capacity := by
  obtain ⟨series, events, observed, sound⟩ := (sound_init window large).observe large
  rw [List.nil_append, Nat.zero_add] at sound
  refine ⟨series, events, observed, sound.recorded.interior, sound.recorded.separated,
    sound.coherent.toAligned.returns, sound.coherent.toAligned.truncatesExactly, ?_⟩
  intro now value time
  refine ⟨(sound.coherent.insert value time).truncatesExactly, ?_⟩
  obtain ⟨truncated, next, cut, done, filled, inner, kept⟩ := sound.set large now value time
  refine ⟨truncated, next, cut, done, inner, List.length_pos_iff.mpr filled, ?_⟩
  have bounded := kept.coherent.bounded
  rwa [kept.capacity] at bounded

/-- Seven values in a series of four. -/
def sevenCalls : List (Call Nat) := [1, 2, 3, 4, 5, 6, 7].map fun time => .set 0 time time

theorem retention_seven : ∃ series events,
    observe (init 100 4) 0 sevenCalls = some (series, events) ∧
      events = [.reset, .removed 2 [1, 3, 4, 5], .removed 4 [1, 3, 5, 6], .reset,
        .removed 3 [1, 5, 6, 7]] ∧
      Interior events ∧ Separated events ∧ series.Returns ∧ series.TruncatesExactly := by
  obtain ⟨series, events, observed, interior, separated, returns, truncates, _⟩ :=
    @retention Nat 100 4 (by decide) sevenCalls
  have seen : (observe (init 100 4) 0 sevenCalls).map Prod.snd = some [.reset,
      .removed 2 [1, 3, 4, 5], .removed 4 [1, 3, 5, 6], .reset, .removed 3 [1, 5, 6, 7]] := by
    decide +kernel
  rw [observed] at seen
  exact ⟨series, events, observed, Option.some.inj seen, interior, separated, returns, truncates⟩

/-- The second round of the sparsification begins at the second value again. -/
example : ((observe (init 1000 10) 0 ((List.range 16).map fun n => .set 0 n n)).map fun seen =>
    seen.1.values.map (·.value)) = some [0, 4, 6, 8, 10, 11, 12, 13, 14, 15] := by
  decide +kernel

end Libprocess.TimeSeries
