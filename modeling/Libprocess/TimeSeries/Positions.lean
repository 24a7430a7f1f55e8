import Libprocess.TimeSeries.Series

/-!
# The deletion candidate

As long as no series is copied that has a candidate, and as long as no series of three values is
made to erase its third of four, the iterator designates the value at the position that is kept for
it.
-/

namespace Libprocess.TimeSeries

open Containers (MapNode)

variable {T : Type} {series result : TimeSeries T} {fresh : Nat} {now time : Int} {value : T}
  {elsewhere : Nat → Option Int}

/-- `next` is an iterator into the map of the series, at the position that is kept. -/
def Designates (series : TimeSeries T) : Prop :=
  ∀ index, series.index = some index →
    ∃ node, series.values[index]? = some node ∧ series.next = some node.id

/-- The map is in order, and the candidate is behind its first value. -/
structure Aligned (fresh : Nat) (series : TimeSeries T) : Prop where
  tidy : MapNode.Tidy fresh series.values
  positive : ∀ index, series.index = some index → 0 < index
  designates : series.Designates

section Insert

theorem getElem?_insert_ids {key : Int} {values assigned : List (MapNode Int T)} {place : Nat}
    {node : MapNode Int T} (extended : MapNode.Extended fresh key value values assigned)
    (found : values[place]? = some node) :
    ∃ other, assigned[place]? = some other ∧ other.id = node.id := by
  cases extended with
  | @written left last whole same =>
      subst whole
      by_cases before : place < left.length
      · rw [List.getElem?_append_left before] at found ⊢
        exact ⟨node, found, rfl⟩
      · rw [List.getElem?_append_right (Nat.not_lt.mp before)] at found ⊢
        cases gap : place - left.length with
        | zero =>
            rw [gap] at found
            cases found
            exact ⟨_, rfl, rfl⟩
        | succ further =>
            rw [gap] at found
            cases found
  | added above =>
      have bound := (List.getElem?_eq_some_iff.mp found).1
      exact ⟨node, by rw [List.getElem?_append_left bound, found], rfl⟩

/-- A series that keeps its candidate was extended at its end. -/
theorem extended_of_insert (sorted : series.values.Pairwise (·.key < ·.key)) {index : Nat}
    (kept : (series.insert fresh value time).index = some index) :
    series.index = some index ∧
      MapNode.Extended fresh time value series.values (series.insert fresh value time).values := by
  unfold insert at kept ⊢
  cases end_ : series.values.getLast? with
  | none =>
      rw [end_] at kept
      refine ⟨kept, MapNode.extended sorted ?_⟩
      rw [List.getLast?_eq_none_iff.mp end_]
      simp
  | some last =>
      simp only [end_] at kept ⊢
      split at kept
      · cases kept
      · rename_i ordered
        refine ⟨kept, MapNode.extended sorted ?_⟩
        obtain ⟨left, whole⟩ := List.getLast?_eq_some_iff.mp end_
        intro node member
        rw [whole] at sorted member
        simp only [List.mem_append, List.mem_singleton] at member
        have final : last.key ≤ time := not_lt.mp ordered
        cases member with
        | inl before =>
            have less := (List.pairwise_append.mp sorted).2.2 node before last (by simp)
            exact le_trans (le_of_lt less) final
        | inr same => rwa [same]

theorem Aligned.insert (aligned : series.Aligned fresh) (value : T) (time : Int) :
    (series.insert fresh value time).Aligned (fresh + 1) where
  tidy := aligned.tidy.assign
  positive index kept :=
    aligned.positive index (extended_of_insert aligned.tidy.sorted kept).1
  designates index kept := by
    obtain ⟨before, extended⟩ := extended_of_insert aligned.tidy.sorted kept
    obtain ⟨node, found, next⟩ := aligned.designates index before
    obtain ⟨other, found, same⟩ := getElem?_insert_ids extended found
    refine ⟨other, found, ?_⟩
    rw [same]
    exact next

end Insert

section Truncate

/-- The values that `truncate` leaves. -/
def remaining (series : TimeSeries T) (expired : Int) : List (MapNode Int T) :=
  if series.upperBound expired = [] then series.values else series.upperBound expired

/-- What `truncate` does: values are erased from the front, and the candidate is kept or lost. -/
structure Truncated (series : TimeSeries T) (now : Int) (result : TimeSeries T) : Prop where
  window : result.window = series.window
  capacity : result.capacity = series.capacity
  values : result.values = series.remaining (now - series.window)
  next : result.next = series.next
  index : ∀ index, result.index = some index → 0 < index ∧
    ∃ erased, series.values = erased ++ result.values ∧
      series.index = some (erased.length + index)

/-- What is behind the upper bound has not expired. -/
theorem upperBound_eq_filter (sorted : series.values.Pairwise (·.key < ·.key)) (expired : Int) :
    series.upperBound expired = series.values.filter (expired < ·.key) := by
  unfold upperBound
  generalize series.values = values at sorted ⊢
  induction values with
  | nil => rfl
  | cons first rest ih =>
      obtain ⟨above, sorted⟩ := List.pairwise_cons.mp sorted
      by_cases old : first.key ≤ expired
      · rw [List.dropWhile_cons_of_pos (by simpa using old),
          List.filter_cons_of_neg (by simpa using old), ih sorted]
      · have all : (first :: rest).filter (expired < ·.key) = first :: rest := by
          rw [List.filter_eq_self]
          intro node member
          rw [decide_eq_true_eq]
          cases List.mem_cons.mp member with
          | inl same =>
              rw [same]
              exact not_le.mp old
          | inr later => exact lt_trans (not_le.mp old) (above node later)
        rw [List.dropWhile_cons_of_neg (by simpa using old), all]

theorem remaining_of_nil {expired : Int} (all : series.upperBound expired = []) :
    series.remaining expired = series.values := by
  rw [remaining, if_pos all]

theorem remaining_of_cons {expired : Int} {first : MapNode Int T} {rest : List (MapNode Int T)}
    (some : series.upperBound expired = first :: rest) :
    series.remaining expired = first :: rest := by
  rw [remaining, if_neg (by simp [some]), some]

/-- What expired, and what did not. -/
theorem expired_append (series : TimeSeries T) (expired : Int) :
    ∃ left, series.values = left ++ series.upperBound expired ∧
      ∀ node ∈ left, node.key ≤ expired := by
  refine ⟨series.values.takeWhile (·.key ≤ expired), ?_, ?_⟩
  · exact List.takeWhile_append_dropWhile.symm
  · intro node member
    simpa using List.mem_takeWhile_imp member

theorem nextTime_eq (aligned : series.Aligned fresh) {index : Nat} {node : MapNode Int T}
    (found : series.values[index]? = some node) (next : series.next = some node.id) :
    series.nextTime elsewhere = some node.key := by
  simp [nextTime, next, aligned.tidy.find? found]

/-- `truncate` is defined. -/
theorem truncate_spec (aligned : series.Aligned fresh) (elsewhere : Nat → Option Int) (now : Int) :
    ∃ result, series.truncate elsewhere now = some result ∧ series.Truncated now result := by
  have same : ∀ values, series.remaining (now - series.window) = values → values = series.values →
      series.Truncated now series := by
    intro values remains unchanged
    refine ⟨rfl, rfl, by rw [remains, unchanged], rfl, ?_⟩
    intro index kept
    exact ⟨aligned.positive index kept, [], rfl, by simpa using kept⟩
  obtain ⟨left, whole, expired⟩ := series.expired_append (now - series.window)
  unfold truncate
  split
  · rename_i all
    exact ⟨series, rfl, same _ (remaining_of_nil all) rfl⟩
  · rename_i first rest found
    have remains := remaining_of_cons found
    rw [found] at whole
    split
    · rename_i short
      have nothing : left = [] := by
        apply List.length_eq_zero_iff.mp
        rw [whole, List.length_append, List.length_cons] at short
        omega
      rw [nothing, List.nil_append] at whole
      exact ⟨series, rfl, same _ remains whole.symm⟩
    · split
      · refine ⟨_, rfl, rfl, rfl, remains.symm, rfl, ?_⟩
        intro index kept
        cases kept
      · rename_i index kept
        obtain ⟨node, place, next⟩ := aligned.designates index kept
        rw [nextTime_eq aligned place next]
        simp only [Option.bind_eq_bind, Option.bind_some]
        split
        · rename_i later
          have count : series.values.length - (first :: rest).length = left.length := by
            rw [whole, List.length_append]
            omega
          -- The candidate is behind the first value that did not expire.
          have behind : left.length < index := by
            rw [whole] at place
            by_contra front
            cases Nat.lt_or_eq_of_le (Nat.not_lt.mp front) with
            | inl inside =>
                rw [List.getElem?_append_left inside] at place
                have old := expired node (List.mem_of_getElem? place)
                have front : first ∈ series.upperBound (now - series.window) := by
                  rw [found]
                  exact List.mem_cons_self
                rw [upperBound_eq_filter aligned.tidy.sorted] at front
                have new : now - series.window < first.key := by
                  simpa using (List.mem_filter.mp front).2
                omega
            | inr same =>
                rw [same, List.getElem?_append_right (Nat.le_refl _), Nat.sub_self] at place
                cases place
                exact absurd later (lt_irrefl _)
          rw [count, if_pos (Nat.le_of_lt behind)]
          refine ⟨_, rfl, rfl, rfl, remains.symm, rfl, ?_⟩
          intro other moved
          cases moved
          refine ⟨by omega, left, whole, ?_⟩
          rw [kept]
          congr 1
          omega
        · refine ⟨_, rfl, rfl, rfl, remains.symm, rfl, ?_⟩
          intro index kept
          cases kept

theorem Aligned.truncated (aligned : series.Aligned fresh)
    (truncated : series.Truncated now result) : result.Aligned fresh where
  tidy := by
    rw [truncated.values, remaining]
    split
    · exact aligned.tidy
    · exact aligned.tidy.sublist (List.dropWhile_sublist _)
  positive index kept := (truncated.index index kept).1
  designates index kept := by
    obtain ⟨_, erased, whole, before⟩ := truncated.index index kept
    obtain ⟨node, found, next⟩ := aligned.designates _ before
    refine ⟨node, ?_, by rw [truncated.next, next]⟩
    rwa [whole, List.getElem?_append_right (Nat.le_add_right _ _), Nat.add_sub_cancel_left]
      at found

end Truncate

section Sparsify

/-- A candidate with a value before it, in the first half of the values. -/
structure Candidate (series : TimeSeries T) (index : Nat) (node : MapNode Int T) : Prop where
  kept : series.index = some index
  next : series.next = some node.id
  found : series.values[index]? = some node
  positive : 0 < index
  half : index ≤ series.values.length / 2

theorem restart_values : series.restart.values = series.values := by
  unfold restart
  split
  · split <;> rfl
  · rfl

theorem restart_capacity : series.restart.capacity = series.capacity := by
  unfold restart
  split
  · split <;> rfl
  · rfl

theorem restart_window : series.restart.window = series.window := by
  unfold restart
  split
  · split <;> rfl
  · rfl

/-- The candidate is the second value after a reset, and otherwise as it was. -/
theorem restart_spec (aligned : series.Aligned fresh) (filled : 2 ≤ series.values.length) :
    ∃ index node, series.restart.Candidate index node ∧
      (index = 1 ∨ series.index = some index ∧ series.restart = series) := by
  have second : series.values[1]? = some series.values[1] := List.getElem?_eq_getElem filled
  cases kept : series.index with
  | none =>
      refine ⟨1, series.values[1], ⟨?_, ?_, ?_, Nat.one_pos, ?_⟩, .inl rfl⟩
      · simp [restart, kept]
      · simp [restart, kept, second]
      · simp [restart, kept, second]
      · rw [restart_values]
        omega
  | some index =>
      by_cases past : series.values.length / 2 < index
      · refine ⟨1, series.values[1], ⟨?_, ?_, ?_, Nat.one_pos, ?_⟩, .inl rfl⟩
        · simp [restart, kept, past]
        · simp [restart, kept, past, second]
        · simp [restart, kept, past, second]
        · rw [restart_values]
          omega
      · obtain ⟨node, found, next⟩ := aligned.designates index kept
        have same : series.restart = series := by simp [restart, kept, past]
        refine ⟨index, node, ?_, .inr ⟨rfl, same⟩⟩
        rw [same]
        exact ⟨kept, next, found, aligned.positive index kept, Nat.not_lt.mp past⟩

/-- The series after its candidate is erased. -/
def erased (series : TimeSeries T) (index : Nat) : TimeSeries T :=
  { series with
    values := series.values.eraseIdx index
    next := series.values[index + 2]?.map (·.id)
    index := some (index + 1) }

theorem eraseNext_spec {index : Nat} {node : MapNode Int T} (tidy : MapNode.Tidy fresh series.values)
    (candidate : series.Candidate index node) (filled : 3 ≤ series.values.length) :
    series.eraseNext = some (series.erased index) := by
  have half := candidate.half
  have inside : index + 1 < series.values.length := by omega
  simp [eraseNext, candidate.next, tidy.position candidate.found, inside, candidate.kept, erased]

theorem length_erased {index : Nat} (inside : index < series.values.length) :
    (series.erased index).values.length = series.values.length - 1 := by
  simp [erased, List.length_eraseIdx_of_lt inside]

/-- The next candidate is behind the value after the erased one. -/
theorem aligned_erased {index : Nat} (tidy : MapNode.Tidy fresh series.values)
    (further : index + 2 < series.values.length) : (series.erased index).Aligned fresh where
  tidy := tidy.sublist (List.eraseIdx_sublist _ _)
  positive other kept := by
    cases kept
    exact Nat.succ_pos index
  designates other kept := by
    cases kept
    refine ⟨series.values[index + 2], ?_, ?_⟩
    · simp only [TimeSeries.erased]
      rw [List.getElem?_eraseIdx_of_ge (Nat.le_succ index)]
      exact List.getElem?_eq_getElem further
    · simp [TimeSeries.erased, List.getElem?_eq_getElem further]

theorem sparsifyLoop_of_le (rounds : Nat) (fits : series.values.length ≤ series.capacity) :
    series.sparsifyLoop rounds = some series := by
  cases rounds with
  | zero => rfl
  | succ rounds => rw [sparsifyLoop, if_neg (Nat.not_lt.mpr fits)]

/-- `sparsify` erases one value of a series that has one too many. -/
theorem sparsify_spec (aligned : series.Aligned fresh) (three : 3 ≤ series.capacity)
    (length : series.values.length = series.capacity + 1) :
    ∃ index node, series.restart.Candidate index node ∧
      (index = 1 ∨ series.index = some index ∧ series.restart = series) ∧
      series.sparsify = some (series.restart.erased index) ∧
      (series.restart.erased index).values.length = series.capacity := by
  obtain ⟨index, node, candidate, origin⟩ := restart_spec aligned (by omega)
  have tidy : MapNode.Tidy fresh series.restart.values := by
    rw [restart_values]
    exact aligned.tidy
  have half := candidate.half
  rw [restart_values] at half
  have size : (series.restart.erased index).values.length = series.capacity := by
    rw [length_erased, restart_values, length]
    · omega
    · rw [restart_values]
      omega
  refine ⟨index, node, candidate, origin, ?_, size⟩
  rw [sparsify, length, sparsifyLoop, if_pos (by omega),
    eraseNext_spec tidy candidate (by rw [restart_values]; omega), Option.bind_some]
  apply sparsifyLoop_of_le
  rw [size]
  exact restart_capacity.ge

end Sparsify

/-! ## One call -/

section Set

/-- A series between two calls. -/
structure Coherent (fresh : Nat) (series : TimeSeries T) : Prop extends Aligned fresh series where
  three : 3 ≤ series.capacity
  bounded : series.values.length ≤ series.capacity

/-- The third of four values is about to be erased: a later one is added to a full series of three,
whose third value is the candidate, and none is truncated. -/
structure Slips (series : TimeSeries T) (now time : Int) : Prop where
  capacity : series.capacity = 3
  full : series.values.length = 3
  index : series.index = some 2
  later : ∀ node ∈ series.values, node.key < time
  unexpired : (∀ node ∈ series.values, now - series.window < node.key) ∨
    time ≤ now - series.window

instance (series : TimeSeries T) (now time : Int) : Decidable (series.Slips now time) :=
  decidable_of_iff (series.capacity = 3 ∧ series.values.length = 3 ∧ series.index = some 2 ∧
      (∀ node ∈ series.values, node.key < time) ∧
      ((∀ node ∈ series.values, now - series.window < node.key) ∨ time ≤ now - series.window))
    ⟨fun ⟨capacity, full, index, later, unexpired⟩ => ⟨capacity, full, index, later, unexpired⟩,
      fun slips => ⟨slips.capacity, slips.full, slips.index, slips.later, slips.unexpired⟩⟩

theorem remaining_suffix (series : TimeSeries T) (expired : Int) :
    series.remaining expired <:+ series.values := by
  rw [remaining]
  split
  · exact List.suffix_refl _
  · exact List.dropWhile_suffix _

theorem Coherent.length_inserted (coherent : series.Coherent fresh)
    (truncated : (series.insert fresh value time).Truncated now result) :
    result.values.length ≤ series.capacity + 1 := by
  have kept := (remaining_suffix (series.insert fresh value time)
    (now - (series.insert fresh value time).window)).length_le
  rw [← truncated.values] at kept
  have added : (series.insert fresh value time).values.length ≤ series.values.length + 1 :=
    MapNode.length_assign_le
  have bounded := coherent.bounded
  omega

/-- If the series of three values slips, it did so before the call. -/
theorem slips_of_overflow (coherent : series.Coherent fresh)
    (truncated : (series.insert fresh value time).Truncated now result)
    (capacity : series.capacity = 3) (overflow : result.values.length = 4)
    (third : result.index = some 2) : series.Slips now time := by
  obtain ⟨_, lost, whole, before⟩ := truncated.index 2 third
  have added : (series.insert fresh value time).values.length ≤ series.values.length + 1 :=
    MapNode.length_assign_le
  have bounded := coherent.bounded
  have lengths := congrArg List.length whole
  rw [List.length_append] at lengths
  have nothing : lost = [] := by
    apply List.length_eq_zero_iff.mp
    omega
  rw [nothing, List.nil_append] at whole
  rw [nothing] at before
  obtain ⟨index, extended⟩ := extended_of_insert coherent.tidy.sorted before
  have window : (series.insert fresh value time).window = series.window := rfl
  have remains := truncated.values
  rw [window, ← whole] at remains
  have sorted := (coherent.insert value time).tidy.sorted
  generalize series.insert fresh value time = grown at *
  have full : grown.values = series.values ++ [⟨fresh, time, value⟩] ∧
      ∀ node ∈ series.values, node.key < time := by
    generalize grown.values = values at extended whole lengths
    cases extended with
    | @written left node same _ =>
        rw [same] at bounded
        rw [nothing] at lengths
        simp only [List.length_append, List.length_singleton, List.length_nil] at lengths bounded
        omega
    | added above => exact ⟨rfl, above⟩
  refine ⟨capacity, ?_, by simpa using index, full.2, ?_⟩
  · have size := congrArg List.length full.1
    rw [List.length_append, whole, overflow] at size
    simp only [List.length_singleton] at size
    omega
  · rw [remaining] at remains
    split at remains
    · rename_i all
      right
      rw [upperBound_eq_filter sorted, List.filter_eq_nil_iff] at all
      have old := all ⟨fresh, time, value⟩ (by simp [full.1])
      simpa using old
    · left
      rw [upperBound_eq_filter sorted, eq_comm, List.filter_eq_self] at remains
      intro node member
      have new := remains node (by simp [full.1, member])
      simpa using new

theorem set_coherent (elsewhere : Nat → Option Int) (value : T)
    (coherent : series.Coherent fresh) (kept : ¬ series.Slips now time) :
    ∃ result, series.set elsewhere fresh now value time = some result ∧
      result.Coherent (fresh + 1) ∧ result.values ≠ [] ∧ result.window = series.window ∧
      result.capacity = series.capacity := by
  have inserted := coherent.insert value time
  obtain ⟨result, found, truncated⟩ := truncate_spec inserted elsewhere now
  have aligned := inserted.truncated truncated
  have window : result.window = series.window := truncated.window
  have capacity : result.capacity = series.capacity := truncated.capacity
  have filled : result.values ≠ [] := by
    rw [truncated.values, remaining]
    split
    · exact MapNode.assign_ne_nil
    · assumption
  have three := coherent.three
  have length := coherent.length_inserted truncated
  rw [set, found, Option.bind_some]
  by_cases fits : result.values.length ≤ result.capacity
  · refine ⟨result, sparsifyLoop_of_le _ fits, ⟨aligned, ?_, fits⟩, filled, window, capacity⟩
    rwa [capacity]
  · have past : result.values.length = result.capacity + 1 := by omega
    obtain ⟨index, node, candidate, origin, sparsified, size⟩ :=
      sparsify_spec aligned (by omega) past
    have half := candidate.half
    rw [restart_values] at half
    have further : index + 2 < result.restart.values.length := by
      rw [restart_values]
      by_contra last
      have slim : series.capacity = 3 ∧ index = 2 := by omega
      cases origin with
      | inl first => omega
      | inr old =>
          rw [slim.2] at old
          exact kept (slips_of_overflow coherent truncated slim.1 (by omega) old.1)
    have tidy : MapNode.Tidy (fresh + 1) result.restart.values := by
      rw [restart_values]
      exact aligned.tidy
    refine ⟨_, sparsified, ⟨aligned_erased tidy further, ?_, ?_⟩, ?_, ?_, ?_⟩
    · change 3 ≤ result.restart.capacity
      rw [restart_capacity]
      omega
    · rw [size]
      exact restart_capacity.ge
    · intro empty
      rw [empty, List.length_nil] at size
      omega
    · exact restart_window.trans window
    · exact restart_capacity.trans capacity

theorem truncate_coherent (elsewhere : Nat → Option Int) (now : Int)
    (coherent : series.Coherent fresh) :
    ∃ result, series.truncate elsewhere now = some result ∧ result.Coherent fresh ∧
      series.Truncated now result := by
  obtain ⟨result, found, truncated⟩ := truncate_spec coherent.toAligned elsewhere now
  refine ⟨result, found, ⟨coherent.truncated truncated, ?_, ?_⟩, truncated⟩
  · rw [truncated.capacity]
    exact coherent.three
  · rw [truncated.values, truncated.capacity]
    exact (remaining_suffix series _).length_le.trans coherent.bounded

/-- Nothing is truncated, if nothing expired or everything did. -/
theorem truncate_unchanged (elsewhere : Nat → Option Int) (aligned : series.Aligned fresh)
    {index : Nat}
    (kept : series.index = some index)
    (all : series.upperBound (now - series.window) = [] ∨
      series.upperBound (now - series.window) = series.values) :
    series.truncate elsewhere now = some series := by
  unfold truncate
  split
  · rfl
  · rename_i first rest found
    cases all with
    | inl none =>
        rw [none] at found
        cases found
    | inr whole =>
        rw [found] at whole
        split
        · rfl
        · obtain ⟨node, place, next⟩ := aligned.designates index kept
          have later : first.key < node.key := by
            have sorted := aligned.tidy.sorted
            have positive := aligned.positive index kept
            rw [← whole] at sorted place
            cases index with
            | zero => exact absurd positive (Nat.lt_irrefl 0)
            | succ index =>
                exact (List.pairwise_cons.mp sorted).1 node (List.mem_of_getElem? place)
          simp [kept, nextTime_eq aligned place next, later, whole]
          cases series
          cases kept
          rfl

/-- A series that slips has an iterator past the end. -/
theorem set_slips (elsewhere : Nat → Option Int) (value : T) (coherent : series.Coherent fresh)
    (slips : series.Slips now time) :
    ∃ result, series.set elsewhere fresh now value time = some result ∧
      result.index = some 3 ∧ result.next = none := by
  have inserted := coherent.insert value time
  obtain ⟨capacity, full, index, later, unexpired⟩ := slips
  have sorted := coherent.tidy.sorted
  have below : ∀ last, series.values.getLast? = some last → ¬ time < last.key := by
    intro last end_
    exact not_lt.mpr (le_of_lt (later last (List.mem_of_getLast? end_)))
  have kept : (series.insert fresh value time).index = some 2 := by
    unfold insert
    simp only
    split
    · rename_i last end_
      rw [if_neg (below last end_), index]
    · exact index
  have values : (series.insert fresh value time).values =
      series.values ++ [⟨fresh, time, value⟩] := by
    have extended := (extended_of_insert sorted kept).2
    generalize (series.insert fresh value time).values = grown at extended
    cases extended with
    | @written left node whole same =>
        have less := later node (by simp [whole])
        rw [same] at less
        exact absurd less (lt_irrefl _)
    | added above => rfl
  have unchanged := @truncate_unchanged _ _ _ now elsewhere inserted _ kept (by
    rw [upperBound_eq_filter inserted.tidy.sorted]
    change (series.insert fresh value time).values.filter (now - series.window < ·.key) = _ ∨ _
    cases unexpired with
    | inr old =>
        left
        rw [List.filter_eq_nil_iff, values]
        intro node member
        rw [decide_eq_true_eq, not_lt]
        simp only [List.mem_append, List.mem_singleton] at member
        cases member with
        | inl before => exact le_trans (le_of_lt (later node before)) old
        | inr same => rwa [same]
    | inl new =>
        right
        rw [List.filter_eq_self, values]
        intro node member
        rw [decide_eq_true_eq]
        simp only [List.mem_append, List.mem_singleton] at member
        cases member with
        | inl before => exact new node before
        | inr same =>
            have first : series.values[0] ∈ series.values := List.getElem_mem (by omega)
            rw [same]
            exact lt_trans (new _ first) (later _ first))
  have length : (series.insert fresh value time).values.length = 4 := by
    rw [values, List.length_append, full]
    rfl
  have cap : (series.insert fresh value time).capacity = 3 := capacity
  obtain ⟨index, node, candidate, _, sparsified, _⟩ := sparsify_spec inserted cap.ge (by omega)
  have same : (series.insert fresh value time).restart = series.insert fresh value time := by
    simp [restart, kept, length]
  have third : index = 2 := by
    have found := candidate.kept
    rw [same, kept] at found
    exact (Option.some.inj found).symm
  refine ⟨_, by rw [set, unchanged, Option.bind_some, sparsified], ?_, ?_⟩
  · rw [third]
    rfl
  · rw [third, same]
    simp [erased, length]

end Set

/-! ## Runs -/

namespace Store

variable {store next : Store T} {name target source : Nat} {action : Action T}

structure Coherent (store : Store T) : Prop where
  each : ∀ name series, store.find name = some series → series.Coherent store.fresh

/-- Every object has its candidate in its own map. -/
def Designated (store : Store T) : Prop :=
  ∀ name series, store.find name = some series → series.Designates

/-- No series slips, and no series with a candidate is copied, except onto itself. -/
def Permitted (store : Store T) : Action T → Prop
  | .set name now _ time => ∀ series, store.find name = some series → ¬ series.Slips now time
  | .copyConstruct source => ∀ series, store.find source = some series → series.index = none
  | .copyAssign target source => target = source ∨ store.find target = none ∨
      ∀ series, store.find source = some series → series.index = none
  | _ => True

/-- Every action of a run is permitted. -/
def Guarded (store : Store T) : List (Action T) → Prop
  | [] => True
  | action :: rest => store.Permitted action ∧
      ∀ next, store.step action = some next → Guarded next rest

instance permitted_decidable (store : Store T) :
    (action : Action T) → Decidable (store.Permitted action)
  | .set name now _ time => inferInstanceAs (Decidable
      (∀ series ∈ store.find name, ¬ series.Slips now time))
  | .copyConstruct source => inferInstanceAs (Decidable
      (∀ series ∈ store.find source, series.index = none))
  | .copyAssign target source =>
      have : Decidable (store.find target = none) := Option.decidableEqNone _
      inferInstanceAs (Decidable (target = source ∨ store.find target = none ∨
        ∀ series ∈ store.find source, series.index = none))
  | .construct _ _ | .truncate _ _ | .destroy _ => .isTrue trivial

instance guarded_decidable (store : Store T) :
    (actions : List (Action T)) → Decidable (store.Guarded actions)
  | [] => .isTrue trivial
  | action :: rest =>
      have (next : Store T) : Decidable (next.Guarded rest) := guarded_decidable next rest
      inferInstanceAs (Decidable (store.Permitted action ∧
        ∀ next ∈ store.step action, next.Guarded rest))

theorem find_add (series : TimeSeries T) (name : Nat) : (store.add series).find name =
    if name = store.objects.length then some series else store.find name := by
  simp only [find, add]
  split
  · rename_i last
    rw [last]
    simp
  · rename_i different
    rw [List.getElem?_append]
    split
    · rfl
    · rename_i beyond
      have outside : store.objects[name]? = none := List.getElem?_eq_none (Nat.not_lt.mp beyond)
      have gap : [some series][name - store.objects.length]? = none :=
        List.getElem?_eq_none (by simp; omega)
      rw [outside, gap]

theorem find_put {series : Option (TimeSeries T)} {other : Nat} :
    (store.put name series).find other =
      if other = name ∧ name < store.objects.length then series else store.find other := by
  simp only [find, put, List.getElem?_set]
  by_cases same : name = other
  · subst same
    by_cases inside : name < store.objects.length
    · simp [inside]
    · simp [inside]
  · simp [same, Ne.symm same]

theorem lt_of_find (found : store.find name = some series) : name < store.objects.length := by
  unfold find at found
  by_contra beyond
  rw [List.getElem?_eq_none (Nat.not_lt.mp beyond)] at found
  cases found

@[simp] theorem find_advance (count : Nat) : (store.advance count).find name = store.find name := rfl

theorem Coherent.designated (coherent : store.Coherent) : store.Designated :=
  fun name series found => (coherent.each name series found).designates

end Store

theorem Coherent.mono {later : Nat} (coherent : series.Coherent fresh) (after : fresh ≤ later) :
    series.Coherent later where
  tidy := coherent.tidy.mono after
  positive := coherent.positive
  designates := coherent.designates
  three := coherent.three
  bounded := coherent.bounded

theorem coherent_init (window : Int) (capacity : Nat) :
    (init window capacity : TimeSeries T).Coherent fresh where
  tidy := ⟨.nil, .nil, by simp [init]⟩
  positive index kept := by cases kept
  designates index kept := by cases kept
  three := le_max_left 3 capacity
  bounded := Nat.zero_le _

theorem Coherent.copied (coherent : series.Coherent fresh) (unset : series.index = none) :
    (series.copied fresh).Coherent (fresh + series.values.length) where
  tidy := MapNode.tidy_renumber coherent.tidy.sorted
  positive index kept := by
    rw [show (series.copied fresh).index = series.index from rfl, unset] at kept
    cases kept
  designates index kept := by
    rw [show (series.copied fresh).index = series.index from rfl, unset] at kept
    cases kept
  three := coherent.three
  bounded := by
    rw [show (series.copied fresh).values.length = series.values.length from MapNode.length_renumber]
    exact coherent.bounded

/-- The candidate of a copy is a node of the original. -/
theorem not_designates_copied (coherent : series.Coherent fresh) {index : Nat}
    (kept : series.index = some index) : ¬ (series.copied fresh).Designates := by
  intro designates
  obtain ⟨node, found, next⟩ := designates index kept
  obtain ⟨original, place, same⟩ := coherent.designates index kept
  rw [show (series.copied fresh).next = series.next from rfl, same, Option.some.injEq] at next
  have new := MapNode.le_of_mem_renumber (List.mem_of_getElem? found)
  have old := coherent.tidy.old original (List.mem_of_getElem? place)
  omega

namespace Store

variable {store next : Store T} {action : Action T}

/-- A permitted action is defined and keeps every candidate in the map of its object. -/
theorem step_permitted (coherent : store.Coherent) (permitted : store.Permitted action) :
    ∃ next, store.step action = some next ∧ next.Coherent := by
  cases action with
  | construct window capacity =>
      refine ⟨_, rfl, ⟨?_⟩⟩
      intro name series found
      rw [find_add] at found
      split at found
      · cases found
        exact coherent_init window capacity
      · exact coherent.each name series found
  | set name now value time =>
      cases found : store.find name with
      | none => exact ⟨store, by simp [step, found], coherent⟩
      | some series =>
          obtain ⟨result, done, kept, _⟩ := set_coherent store.timeOf value
            (coherent.each name series found) (permitted series found)
          refine ⟨(store.put name (some result)).advance 1, by simp [step, found, done], ⟨?_⟩⟩
          intro other series present
          rw [find_advance, find_put] at present
          split at present
          · cases present
            exact kept
          · exact (coherent.each other series present).mono (Nat.le_succ _)
  | truncate name now =>
      cases found : store.find name with
      | none => exact ⟨store, by simp [step, found], coherent⟩
      | some series =>
          obtain ⟨result, done, kept, _⟩ := truncate_coherent store.timeOf now
            (coherent.each name series found)
          refine ⟨store.put name (some result), by simp [step, found, done], ⟨?_⟩⟩
          intro other series present
          rw [find_put] at present
          split at present
          · cases present
            exact kept
          · exact coherent.each other series present
  | copyConstruct source =>
      cases found : store.find source with
      | none => exact ⟨store, by simp [step, found], coherent⟩
      | some series =>
          refine ⟨(store.add (series.copied store.fresh)).advance series.values.length,
            by simp [step, found], ⟨?_⟩⟩
          intro other copy present
          rw [find_advance, find_add] at present
          split at present
          · cases present
            exact (coherent.each source series found).copied (permitted series found)
          · exact (coherent.each other copy present).mono (Nat.le_add_right _ _)
  | copyAssign target source =>
      cases old : store.find target with
      | none => exact ⟨store, by simp [step, old], coherent⟩
      | some replaced =>
        cases found : store.find source with
        | none => exact ⟨store, by simp [step, old, found], coherent⟩
        | some series =>
          by_cases same : target = source
          · refine ⟨store, ?_, coherent⟩
            simp only [step, old, found]
            rw [if_pos same]
          · refine ⟨(store.put target (some (series.copied store.fresh))).advance
              series.values.length, ?_, ⟨?_⟩⟩
            · simp only [step, old, found]
              rw [if_neg same]
            intro other copy present
            rw [find_advance, find_put] at present
            split at present
            · cases present
              obtain self | absent | unset := permitted
              · exact absurd self same
              · rw [old] at absent
                cases absent
              · exact (coherent.each source series found).copied (unset series found)
            · exact (coherent.each other copy present).mono (Nat.le_add_right _ _)
  | destroy name =>
      refine ⟨_, rfl, ⟨?_⟩⟩
      intro other series present
      rw [find_put] at present
      split at present
      · cases present
      · exact coherent.each other series present

/-- An action that is not permitted leaves an object whose candidate is not in its map. -/
theorem step_not_permitted (coherent : store.Coherent) (forbidden : ¬ store.Permitted action) :
    ∃ next, store.step action = some next ∧ ¬ next.Designated := by
  cases action with
  | construct window capacity | truncate name now | destroy name => exact absurd trivial forbidden
  | set name now value time =>
      simp only [Permitted, not_forall, not_not] at forbidden
      obtain ⟨series, found, slips⟩ := forbidden
      obtain ⟨result, done, index, past⟩ :=
        set_slips store.timeOf value (coherent.each name series found) slips
      refine ⟨(store.put name (some result)).advance 1, by simp [step, found, done], ?_⟩
      intro designated
      have present : ((store.put name (some result)).advance 1).find name = some result := by
        rw [find_advance, find_put, if_pos ⟨rfl, lt_of_find found⟩]
      obtain ⟨node, _, next⟩ := designated name result present 3 index
      rw [past] at next
      cases next
  | copyConstruct source =>
      simp only [Permitted, not_forall] at forbidden
      obtain ⟨series, found, unset⟩ := forbidden
      obtain ⟨index, kept⟩ := Option.ne_none_iff_exists'.mp unset
      refine ⟨(store.add (series.copied store.fresh)).advance series.values.length,
        by simp [step, found], ?_⟩
      intro designated
      apply not_designates_copied (coherent.each source series found) kept
      apply designated store.objects.length
      rw [find_advance, find_add, if_pos rfl]
  | copyAssign target source =>
      simp only [Permitted, not_or, not_forall] at forbidden
      obtain ⟨different, present, series, found, unset⟩ := forbidden
      obtain ⟨replaced, old⟩ := Option.ne_none_iff_exists'.mp present
      obtain ⟨index, kept⟩ := Option.ne_none_iff_exists'.mp unset
      refine ⟨(store.put target (some (series.copied store.fresh))).advance
        series.values.length, ?_, ?_⟩
      · simp only [step, old, found]
        rw [if_neg different]
      · intro designated
        apply not_designates_copied (coherent.each source series found) kept
        apply designated target
        rw [find_advance, find_put, if_pos ⟨rfl, lt_of_find old⟩]

/-- A run of permitted actions is defined. -/
theorem run_guarded {actions : List (Action T)} (coherent : store.Coherent)
    (guarded : store.Guarded actions) :
    ∃ next, store.run actions = some next ∧ next.Coherent := by
  induction actions generalizing store with
  | nil => exact ⟨store, rfl, coherent⟩
  | cons action rest ih =>
      obtain ⟨next, done, kept⟩ := step_permitted coherent guarded.1
      obtain ⟨last, finished, result⟩ := ih kept (guarded.2 next done)
      refine ⟨last, ?_, result⟩
      rw [run, List.foldlM_cons, done]
      exact finished

theorem coherent_empty : (empty : Store T).Coherent := by
  constructor
  intro name series found
  simp [find, empty] at found

/-- After any run of permitted actions every candidate is in the map of its object, at the position
that is kept for it, and one more action leaves it so exactly if it is permitted. -/
theorem designated_iff_permitted {actions : List (Action T)}
    (guarded : (empty : Store T).Guarded actions) :
    ∃ store, (empty : Store T).run actions = some store ∧ store.Designated ∧
      ∀ action, (∃ next, store.step action = some next ∧ next.Designated) ↔
        store.Permitted action := by
  obtain ⟨store, ran, coherent⟩ := run_guarded coherent_empty guarded
  refine ⟨store, ran, coherent.designated, ?_⟩
  intro action
  constructor
  · rintro ⟨next, done, designated⟩
    by_contra forbidden
    obtain ⟨other, same, broken⟩ := step_not_permitted coherent forbidden
    rw [done] at same
    cases same
    exact broken designated
  · intro permitted
    obtain ⟨next, done, kept⟩ := step_permitted coherent permitted
    exact ⟨next, done, kept.designated⟩

/-- Six values in a series of four, of which `truncate` removes one in front of the candidate. -/
def truncatedRun : List (Action Nat) :=
  .construct 100 4 :: [1, 2, 3, 4, 5, 6].map (fun time => .set 0 10 7 time) ++ [.truncate 0 102]

theorem designated_iff_permitted_four : ∃ store series,
    (empty : Store Nat).run truncatedRun = some store ∧ store.find 0 = some series ∧
      series.index = some 2 ∧ series.values.map (·.key) = [3, 5, 6] ∧ store.Designated ∧
      ∀ action, (∃ next, store.step action = some next ∧ next.Designated) ↔
        store.Permitted action := by
  obtain ⟨store, ran, designated, permitted⟩ :=
    @designated_iff_permitted Nat truncatedRun (by decide +kernel)
  have shape : (((empty : Store Nat).run truncatedRun).bind (·.find 0)).map (fun series =>
      (series.index, series.values.map (·.key))) = some (some 2, [3, 5, 6]) := by
    decide +kernel
  rw [ran, Option.bind_some] at shape
  obtain ⟨series, found, same⟩ := Option.map_eq_some_iff.mp shape
  rw [Prod.mk.injEq] at same
  exact ⟨store, series, ran, found, same.1, same.2, designated, permitted⟩

/-- The fifth value of a series of three leaves an iterator past the end, whose time the next
`truncate` reads; and a copy of a series with a candidate has the iterator of the original. -/
theorem not_designated :
    (∃ store, (empty : Store Nat).run [.construct 100 3, .set 0 10 0 1, .set 0 10 0 2, .set 0 10 0 3,
        .set 0 10 0 4, .set 0 10 0 5] = some store ∧ ¬ store.Designated ∧
      store.step (.truncate 0 10) = none) ∧
    ∃ store, (empty : Store Nat).run [.construct 100 4, .set 0 10 0 1, .set 0 10 0 2, .set 0 10 0 3,
        .set 0 10 0 4, .set 0 10 0 5, .copyConstruct 0] = some store ∧ ¬ store.Designated := by
  constructor
  · refine ⟨_, rfl, ?_, rfl⟩
    intro designated
    obtain ⟨node, _, next⟩ := designated 0 _ rfl 3 rfl
    cases next
  · refine ⟨_, rfl, ?_⟩
    intro designated
    obtain ⟨node, found, next⟩ := designated 1 _ rfl 2 rfl
    cases found
    cases next

end Store

end Libprocess.TimeSeries
