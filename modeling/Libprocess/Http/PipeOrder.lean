import Libprocess.Http.Pipe

/-!
# The order of the chunks of a pipe

The reads that get a chunk come first, and they get the accepted chunks in order.  The
reads after them wait while both ends are open, and otherwise report the end of the pipe.
A result is decided under the lock, and published by the call that decided it.
-/

namespace Libprocess.Http

open Concurrency

namespace Pipe

/-- The result of a read that gets no chunk. -/
def Justified (pipe : Pipe) (accepted taken : List String) : Option ReadResult → Prop
  | some (.ready text) => text = "" ∧ pipe.writeEnd = .closed ∧ accepted = taken
  | some (.failed message) => pipe.readEnd = .closed ∨
      pipe.writeEnd = .failed ∧ pipe.failure = some message ∧ accepted = taken
  | none => False

/-- The results are those of the reads that took a chunk, and then of others. -/
structure Sequenced (pipe : Pipe) (decided : List (Option ReadResult))
    (accepted taken : List String) (tail : List (Option ReadResult)) : Prop where
  decided_eq : decided = taken.map (fun text => some (.ready text)) ++ tail
  nonempty : ∀ text ∈ accepted, text ≠ ""
  undelivered : pipe.readEnd = .opened → accepted = taken ++ pipe.writes
  taken_prefix : taken <+: accepted
  drained : tail ≠ [] → pipe.writes = []
  dropped : pipe.readEnd = .closed → pipe.writes = []
  failure : pipe.writeEnd = .failed → pipe.failure.isSome = true
  waiting : (∃ count, tail = List.replicate count none ∧
      pipe.reads = List.range' taken.length count ∧
      (0 < count → pipe.readEnd = .opened ∧ pipe.writeEnd = .opened)) ∨
    pipe.reads = [] ∧ ¬ (pipe.readEnd = .opened ∧ pipe.writeEnd = .opened) ∧
      ∀ result ∈ tail, pipe.Justified accepted taken result

theorem sequenced_empty : Sequenced empty [] [] [] [] := by
  refine ⟨rfl, by simp, by simp [empty], List.prefix_rfl, by simp, by simp [empty],
    by simp [empty], .inl ⟨0, rfl, rfl, by simp⟩⟩

/-- The results that a call decides for the reads that wait. -/
theorem decide_range (known : List (Option ReadResult)) (count : Nat) (result : ReadResult)
    (closure : Option Closure) :
    Channel.decide (known ++ List.replicate count none)
      ⟨(List.range' known.length count).map (·, result), closure⟩ =
        known ++ List.replicate count (some result) := by
  simp only [Channel.decide]
  induction count generalizing known with
  | zero => simp
  | succ count ih =>
      have next := ih (known ++ [some result])
      simp only [List.length_append, List.length_singleton, List.append_assoc,
        List.singleton_append] at next
      simpa [List.range'_succ, List.replicate_succ, List.set_append_right] using next

variable {pipe : Pipe} {decided tail : List (Option ReadResult)} {accepted taken : List String}

section

variable (sequenced : pipe.Sequenced decided accepted taken tail)

include sequenced

theorem Sequenced.length_taken :
    decided.length = taken.length + tail.length := by
  simp [sequenced.decided_eq]

/-- An end is closed: the reads that wait get the same result. -/
theorem Sequenced.close {after : Pipe}
    {result : ReadResult} {closure : Option Closure} (reads : after.reads = [])
    (shut : ¬ (after.readEnd = .opened ∧ after.writeEnd = .opened))
    (undelivered : after.readEnd = .opened → after.writes = pipe.writes ∧ pipe.readEnd = .opened)
    (writes : after.writes = [] ∨ after.writes = pipe.writes)
    (dropped : after.readEnd = .closed → after.writes = [])
    (failure : after.writeEnd = .failed → after.failure.isSome = true)
    (kept : ∀ result ∈ tail, pipe.Justified accepted taken result →
      after.Justified accepted taken result)
    (decides : pipe.readEnd = .opened → pipe.writes = [] →
      after.Justified accepted taken (some result)) :
    ∃ tail', after.Sequenced
      (Channel.decide decided ⟨pipe.reads.map (·, result), closure⟩) accepted taken tail' := by
  have drained (nonempty : tail ≠ []) : after.writes = [] := by
    rcases writes with none | same
    · exact none
    · rw [same, sequenced.drained nonempty]
  rcases sequenced.waiting with ⟨count, rfl, waits, both⟩ | ⟨none, -, justified⟩
  · refine ⟨List.replicate count (some result), ?_, sequenced.nonempty, fun opened => ?_,
      sequenced.taken_prefix, fun nonempty => drained ?_, dropped, failure,
      .inr ⟨reads, shut, fun other member => ?_⟩⟩
    · have listed := decide_range (taken.map fun text => some (.ready text)) count result closure
      rw [List.length_map] at listed
      rw [sequenced.decided_eq, waits, listed]
    · rw [(undelivered opened).1]
      exact sequenced.undelivered (undelivered opened).2
    · intro same
      simp_all
    · obtain ⟨positive, rfl⟩ := List.mem_replicate.mp member
      exact decides (both (Nat.pos_of_ne_zero positive)).1
        (sequenced.drained (by simpa using positive))
  · refine ⟨tail, ?_, sequenced.nonempty, fun opened => ?_, sequenced.taken_prefix, drained,
      dropped, failure, .inr ⟨reads, shut, fun other member => kept other member
        (justified other member)⟩⟩
    · simp [none, Channel.decide, sequenced.decided_eq]
    · rw [(undelivered opened).1]
      exact sequenced.undelivered (undelivered opened).2

theorem Sequenced.closeReader :
    ∃ tail', pipe.closeReader.1.Sequenced
      (Channel.decide decided pipe.closeReader.2.2) accepted taken tail' := by
  by_cases opened : pipe.readEnd = .opened
  · simp only [Pipe.closeReader, opened, if_true]
    refine sequenced.close rfl (by simp) (by simp) (.inl rfl) (fun _ => rfl) sequenced.failure
      (fun result _ justified => ?_) (fun _ _ => .inl rfl)
    match result, justified with
    | some (.ready _), justified => exact justified
    | some (.failed _), _ => exact .inl rfl
  · simp only [Pipe.closeReader, opened, if_false]
    exact ⟨tail, by simpa [Channel.decide] using sequenced⟩

/-- The writer shuts its end: the reads that wait are told. -/
theorem Sequenced.shut {writeEnd : WriteEnd} {failure : Option String} {result : ReadResult}
    (opened : pipe.writeEnd = .opened) (shut : writeEnd ≠ .opened)
    (failed : writeEnd = .failed → failure.isSome = true)
    (decides : accepted = taken →
      { pipe with reads := [], writeEnd, failure }.Justified accepted taken (some result)) :
    ∃ tail', { pipe with reads := [], writeEnd, failure }.Sequenced
      (Channel.decide decided ⟨pipe.reads.map (·, result), none⟩) accepted taken tail' := by
  refine sequenced.close rfl (fun both => shut both.2) (fun reading => ⟨rfl, reading⟩) (.inr rfl)
    sequenced.dropped failed (fun result _ justified => ?_) (fun reading empty => decides ?_)
  · match result, justified with
    | some (.ready _), justified => exact absurd justified.2.1 (by simp [opened])
    | some (.failed _), justified =>
        exact justified.imp id fun failed => absurd failed.1 (by simp [opened])
  · simpa [empty] using sequenced.undelivered reading

theorem Sequenced.closeWriter :
    ∃ tail', pipe.closeWriter.1.Sequenced
      (Channel.decide decided pipe.closeWriter.2.2) accepted taken tail' := by
  by_cases opened : pipe.writeEnd = .opened
  · simp only [Pipe.closeWriter, opened, if_true]
    exact sequenced.shut opened nofun nofun fun all => ⟨rfl, rfl, all⟩
  · simp only [Pipe.closeWriter, opened, if_false]
    exact ⟨tail, by simpa [Channel.decide] using sequenced⟩

theorem Sequenced.fail (message : String) :
    ∃ tail', (pipe.fail message).1.Sequenced
      (Channel.decide decided (pipe.fail message).2.2) accepted taken tail' := by
  by_cases opened : pipe.writeEnd = .opened
  · simp only [Pipe.fail, opened, if_true]
    exact sequenced.shut opened nofun (fun _ => rfl) fun all => .inr ⟨rfl, rfl, all⟩
  · simp only [Pipe.fail, opened, if_false]
    exact ⟨tail, by simpa [Channel.decide] using sequenced⟩

/-- A read takes the next chunk, reports the end of the pipe, or waits. -/
theorem Sequenced.read :
    ∃ after result taken' tail', pipe.read decided.length = some (after, result) ∧
      after.Sequenced (decided ++ [result]) accepted taken' tail' := by
  have extend {result : Option ReadResult} (justified : pipe.Justified accepted taken result)
      (shut : ¬ (pipe.readEnd = .opened ∧ pipe.writeEnd = .opened)) (empty : pipe.writes = []) :
      pipe.Sequenced (decided ++ [result]) accepted taken (tail ++ [result]) := by
    refine ⟨by rw [sequenced.decided_eq, List.append_assoc], sequenced.nonempty,
      sequenced.undelivered, sequenced.taken_prefix, fun _ => empty, sequenced.dropped,
      sequenced.failure, .inr ?_⟩
    rcases sequenced.waiting with ⟨count, rfl, waits, both⟩ | ⟨none, -, others⟩
    · obtain rfl : count = 0 := by
        by_contra positive
        exact shut (both (Nat.pos_of_ne_zero positive))
      exact ⟨waits, shut, by simpa using justified⟩
    · refine ⟨none, shut, fun other member => ?_⟩
      rcases List.mem_append.mp member with old | new
      · exact others other old
      · exact List.mem_singleton.mp new ▸ justified
  match reading : pipe.readEnd, waiting : pipe.writes, writing : pipe.writeEnd with
  | .closed, writes, _ =>
      refine ⟨pipe, some (.failed "closed"), taken, _, by simp [Pipe.read, reading],
        extend (.inl reading) (by simp [reading])
          (sequenced.dropped reading)⟩
  | .opened, text :: writes, _ =>
      have empty : tail = [] := by
        by_contra nonempty
        simp [sequenced.drained nonempty] at waiting
      subst empty
      have all : accepted = taken ++ text :: writes := waiting ▸ sequenced.undelivered reading
      refine ⟨{ pipe with writes := writes }, some (.ready text), taken ++ [text], [],
        by simp [Pipe.read, reading, waiting], by simp [sequenced.decided_eq], sequenced.nonempty,
        fun _ => by simp [all], by simp [all], by simp, by simp [reading], sequenced.failure, ?_⟩
      rcases sequenced.waiting with ⟨count, none, waits, -⟩ | ⟨none, shut, -⟩
      · obtain rfl : count = 0 := by simpa using none
        exact .inl ⟨0, rfl, by simpa using waits, by simp⟩
      · exact .inr ⟨none, shut, by simp⟩
  | .opened, [], .closed =>
      refine ⟨pipe, some (.ready ""), taken, _, by simp [Pipe.read, reading, waiting, writing],
        extend ⟨rfl, writing, ?_⟩ (by simp [writing]) waiting⟩
      simpa [waiting] using sequenced.undelivered reading
  | .opened, [], .failed =>
      obtain ⟨message, failure⟩ := Option.isSome_iff_exists.mp (sequenced.failure writing)
      refine ⟨pipe, some (.failed message), taken, _,
        by simp [Pipe.read, reading, waiting, writing, failure],
        extend (.inr ⟨writing, failure, ?_⟩) (by simp [writing])
          waiting⟩
      simpa [waiting] using sequenced.undelivered reading
  | .opened, [], .opened =>
      rcases sequenced.waiting with ⟨count, rfl, waits, both⟩ | ⟨-, shut, -⟩
      · refine ⟨{ pipe with reads := pipe.reads ++ [decided.length] }, none, taken,
          List.replicate (count + 1) none, by simp [Pipe.read, reading, waiting, writing],
          ?_, sequenced.nonempty, sequenced.undelivered, sequenced.taken_prefix, fun _ => waiting,
          sequenced.dropped, sequenced.failure,
          .inl ⟨count + 1, rfl, ?_, fun _ => ⟨reading, writing⟩⟩⟩
        · rw [sequenced.decided_eq, List.append_assoc, ← List.replicate_succ']
        · simp [waits, sequenced.length_taken, List.range'_concat]
      · exact absurd ⟨reading, writing⟩ shut

/-- A chunk is taken by the first read that waits, or waits itself. -/
theorem Sequenced.write (text : String) :
    ∃ taken' tail', (pipe.write text).1.Sequenced
      (Channel.decide decided (pipe.write text).2.2)
      (if (pipe.write text).2.1 = true ∧ text ≠ "" then accepted ++ [text] else accepted)
      taken' tail' := by
  by_cases both : pipe.writeEnd = .opened ∧ pipe.readEnd = .opened
  · by_cases some : text ≠ ""
    · rcases sequenced.waiting with ⟨count, rfl, waits, -⟩ | ⟨-, shut, -⟩
      · cases count with
        | zero =>
            have none : pipe.reads = [] := by simpa using waits
            simp only [Pipe.write, both, and_self, if_true, some, ne_eq, not_false_eq_true, none]
            refine ⟨taken, [], sequenced.decided_eq, ?_, fun opened => ?_,
              sequenced.taken_prefix.trans (List.prefix_append _ _), by simp, by simp,
              by simp, .inl ⟨0, rfl, by simp, by simp⟩⟩
            · intro other member
              rcases List.mem_append.mp member with old | new
              · exact sequenced.nonempty other old
              · exact List.mem_singleton.mp new ▸ some
            · rw [sequenced.undelivered both.2, List.append_assoc]
        | succ count =>
            have empty : pipe.writes = [] := sequenced.drained (by simp)
            have all : accepted = taken := by simpa [empty] using sequenced.undelivered both.2
            rw [List.range'_succ] at waits
            simp only [Pipe.write, both, and_self, if_true, some, ne_eq, not_false_eq_true, waits]
            refine ⟨taken ++ [text], List.replicate count none, ?_, ?_, fun _ => ?_, ?_,
              fun _ => empty, by simp, by simp, .inl ⟨count, rfl, by simp, fun _ => ⟨rfl, rfl⟩⟩⟩
            · simp [Channel.decide, sequenced.decided_eq, List.replicate_succ,
                List.set_append_right]
            · intro other member
              rcases List.mem_append.mp member with old | new
              · exact sequenced.nonempty other old
              · exact List.mem_singleton.mp new ▸ some
            · simp [all, empty]
            · simp [all]
      · exact absurd ⟨both.2, both.1⟩ shut
    · simp only [Pipe.write, both, and_self, if_true, some, if_false, and_false]
      exact ⟨taken, tail, sequenced⟩
  · simp only [Pipe.write, both, if_false, Bool.false_eq_true, false_and]
    exact ⟨taken, tail, by simpa [Channel.decide] using sequenced⟩

end

end Pipe

namespace Pipe

variable {pipe : Pipe} {decided tail : List (Option ReadResult)} {accepted taken : List String}

/-- The reads without a result are those that wait in the pipe. -/
theorem Sequenced.undecided_iff (sequenced : pipe.Sequenced decided accepted taken tail)
    {number : Nat} : decided[number]? = some none ↔ number ∈ pipe.reads := by
  rw [sequenced.decided_eq, List.getElem?_append]
  rcases sequenced.waiting with ⟨count, rfl, waits, -⟩ | ⟨none, -, justified⟩
  · rw [waits, List.mem_range'_1]
    simp only [List.length_map, List.getElem?_map, List.getElem?_replicate]
    split
    · simp only [Option.map_eq_some_iff, reduceCtorEq, and_false, exists_false, false_iff]
      omega
    · simp only [Option.ite_none_right_eq_some, and_true]
      omega
  · rw [none]
    simp only [List.length_map, List.getElem?_map, List.not_mem_nil, iff_false]
    split
    · simp
    · exact fun found => justified _ (List.mem_of_getElem? found)

theorem Sequenced.reads_nodup (sequenced : pipe.Sequenced decided accepted taken tail) :
    pipe.reads.Nodup := by
  rcases sequenced.waiting with ⟨count, -, waits, -⟩ | ⟨none, -, -⟩
  · exact waits ▸ List.nodup_range'
  · exact none ▸ List.nodup_nil

end Pipe

namespace Channel

/-- The numbers of the reads that a call completes. -/
def numbers (call : PipeCall) : List Nat := call.reads.map Prod.fst

/-- A call decides the results of its reads and of no others. -/
theorem decide_getElem? {call : PipeCall} {decided : List (Option ReadResult)}
    (nodup : (numbers call).Nodup) (valid : ∀ number ∈ numbers call, number < decided.length)
    (number : Nat) :
    (∀ result, (number, result) ∈ call.reads →
      (decide decided call)[number]? = some (some result)) ∧
    (number ∉ numbers call → (decide decided call)[number]? = decided[number]?) := by
  obtain ⟨reads, closure⟩ := call
  simp only [numbers, decide] at nodup valid ⊢
  induction reads generalizing decided with
  | nil => simp
  | cons first rest ih =>
      obtain ⟨fresh, restNodup⟩ := List.nodup_cons.mp nodup
      have bound : first.1 < decided.length := valid first.1 (by simp)
      have restValid : ∀ other ∈ rest.map Prod.fst,
          other < (decided.set first.1 (some first.2)).length :=
        fun other member => by simpa using valid other (List.mem_cons_of_mem _ member)
      obtain ⟨own, others⟩ := ih restNodup restValid
      simp only [List.foldl_cons, List.mem_cons, List.map_cons, not_or]
      refine ⟨fun result member => ?_, fun ⟨different, outside⟩ => ?_⟩
      · rcases member with rfl | member
        · rw [others fresh, List.getElem?_set_self bound]
        · exact own result member
      · rw [others outside, List.getElem?_set_ne (Ne.symm different)]

/-- Every result that has been decided is published or will be by one call. -/
structure Published (channel : Channel) : Prop where
  length_eq : channel.results.length = channel.decided.length
  known : ∀ (number : Nat) (result : ReadResult),
    channel.results[number]? = some (some result) →
      channel.decided[number]? = some (some result)
  owed : ∀ call ∈ channel.calls, ∀ entry ∈ call.reads,
    channel.decided[entry.1]? = some (some entry.2) ∧ channel.results[entry.1]? = some none
  covered : ∀ (number : Nat) (result : ReadResult),
    channel.decided[number]? = some (some result) →
      channel.results[number]? = some (some result) ∨
        ∃ call ∈ channel.calls, (number, result) ∈ call.reads
  distinct : (channel.calls.flatMap numbers).Nodup

/-- The promise that tells the writer that the reader was closed. -/
structure Closing (channel : Channel) : Prop where
  opened : channel.pipe.readEnd = .opened → channel.readerClosure = none ∧
    channel.calls.filterMap PipeCall.closure = [] ∧ channel.closedFirst = false
  closed : channel.pipe.readEnd = .closed →
    channel.readerClosure.toList ++ channel.calls.filterMap PipeCall.closure =
      [if channel.closedFirst then .ready else .discarded]

structure Sound (channel : Channel) : Prop where
  sequenced : ∃ taken tail,
    channel.pipe.Sequenced channel.decided channel.accepted taken tail
  published : channel.Published
  closing : channel.Closing

theorem sound_empty : empty.Sound := by
  refine ⟨⟨[], [], Pipe.sequenced_empty⟩, ⟨rfl, ?_, ?_, ?_, ?_⟩, ?_, ?_⟩ <;>
    simp [empty, Pipe.empty]

variable {channel next : Channel}

/-- A call decides results of reads that wait. -/
theorem Published.commit (published : channel.Published) {outcome : Pipe × Bool × PipeCall}
    (nodup : (numbers outcome.2.2).Nodup)
    (waiting : ∀ number ∈ numbers outcome.2.2, channel.decided[number]? = some none) :
    (channel.commit outcome).Published := by
  have valid : ∀ number ∈ numbers outcome.2.2, number < channel.decided.length :=
    fun number member => (List.getElem?_eq_some_iff.mp (waiting number member)).1
  have own (number : Nat) := (decide_getElem? nodup valid number).1
  have others (number : Nat) := (decide_getElem? nodup valid number).2
  have outside {number : Nat} {result : ReadResult}
      (decided : channel.decided[number]? = some (some result)) :
      number ∉ numbers outcome.2.2 := fun member => by
    simp [waiting number member] at decided
  have length : (decide channel.decided outcome.2.2).length = channel.decided.length := by
    simp only [decide]
    generalize channel.decided = decided
    induction outcome.2.2.reads generalizing decided with
    | nil => rfl
    | cons first rest ih => simp [ih]
  refine ⟨published.length_eq.trans length.symm, fun number result found => ?_,
    fun call member entry listed => ?_, fun number result decided => ?_, ?_⟩
  · have before := published.known number result found
    exact (others number (outside before)).trans before
  · rcases List.mem_cons.mp member with rfl | old
    · have member' : entry.1 ∈ numbers outcome.2.2 := List.mem_map_of_mem listed
      refine ⟨own entry.1 entry.2 listed, ?_⟩
      have bound : entry.1 < channel.results.length := published.length_eq ▸ valid entry.1 member'
      cases found : channel.results[entry.1]? with
      | none => exact absurd (List.getElem?_eq_none_iff.mp found) (by omega)
      | some known =>
          cases known with
          | none => exact found
          | some result => exact absurd member' (outside (published.known entry.1 result found))
    · obtain ⟨before, pending⟩ := published.owed call old entry listed
      exact ⟨(others entry.1 (outside before)).trans before, pending⟩
  · by_cases member : number ∈ numbers outcome.2.2
    · obtain ⟨entry, listed, rfl⟩ := List.mem_map.mp member
      have same := (own entry.1 entry.2 listed).symm.trans decided
      simp only [Option.some.injEq] at same
      exact .inr ⟨outcome.2.2, by simp [Channel.commit], same ▸ listed⟩
    · refine (published.covered number result ((others number member).symm.trans decided)).imp id ?_
      exact fun ⟨call, old, listed⟩ => ⟨call, by simp [Channel.commit, old], listed⟩
  · simp only [Channel.commit, List.flatMap_cons]
    refine List.nodup_append.mpr ⟨nodup, published.distinct, fun number first other second => ?_⟩
    rintro rfl
    obtain ⟨call, old, listed⟩ := List.mem_flatMap.mp second
    obtain ⟨entry, listed', rfl⟩ := List.mem_map.mp listed
    exact outside (published.owed call old entry listed').1 first

/-- A call publishes its next result. -/
theorem Published.publish (published : channel.Published) {number : Nat} {result : ReadResult}
    {reads : List (Nat × ReadResult)} {closure : Option Closure}
    (member : ⟨(number, result) :: reads, closure⟩ ∈ channel.calls) :
    Published { channel with
      results := publish channel.results number result
      calls := ⟨reads, closure⟩ :: channel.calls.erase ⟨(number, result) :: reads, closure⟩ } := by
  have perm := List.perm_cons_erase member
  have distinct := (perm.flatMap_right numbers).nodup_iff.mp published.distinct
  simp only [List.flatMap_cons, numbers, List.map_cons, List.cons_append,
    List.nodup_cons] at distinct
  obtain ⟨fresh, restDistinct⟩ := distinct
  obtain ⟨decided, pending⟩ := published.owed _ member (number, result) (by simp)
  have bound : number < channel.results.length := (List.getElem?_eq_some_iff.mp pending).1
  simp only [Channel.publish, pending, if_true]
  have calls : ∀ call ∈ (⟨reads, closure⟩ : PipeCall) ::
      channel.calls.erase ⟨(number, result) :: reads, closure⟩, ∀ entry ∈ call.reads,
        entry.1 ≠ number ∧ ∃ old ∈ channel.calls, entry ∈ old.reads := by
    intro call old entry listed
    refine ⟨fun same => fresh ?_, ?_⟩
    · rcases List.mem_cons.mp old with rfl | kept
      · exact List.mem_append_left _ (List.mem_map.mpr ⟨entry, listed, same⟩)
      · exact List.mem_append_right _ (List.mem_flatMap.mpr
          ⟨call, kept, List.mem_map.mpr ⟨entry, listed, same⟩⟩)
    · rcases List.mem_cons.mp old with rfl | kept
      · exact ⟨_, member, List.mem_cons_of_mem _ listed⟩
      · exact ⟨call, List.mem_of_mem_erase kept, listed⟩
  refine ⟨by simpa using published.length_eq, fun other found is => ?_,
    fun call old entry listed => ?_, fun other found is => ?_, ?_⟩
  · by_cases same : other = number
    · subst same
      rw [List.getElem?_set_self bound, Option.some.injEq, Option.some.injEq] at is
      exact is ▸ decided
    · rw [List.getElem?_set_ne (Ne.symm same)] at is
      exact published.known other found is
  · obtain ⟨different, before, was, listed'⟩ := calls call old entry listed
    obtain ⟨decided', pending'⟩ := published.owed before was entry listed'
    exact ⟨decided', by rwa [List.getElem?_set_ne (Ne.symm different)]⟩
  · by_cases same : other = number
    · subst same
      refine .inl ?_
      rw [List.getElem?_set_self bound, ← decided, is]
    · rw [List.getElem?_set_ne (Ne.symm same)]
      refine (published.covered other found is).imp id fun ⟨call, old, listed⟩ => ?_
      rcases List.mem_cons.mp (perm.mem_iff.mp old) with rfl | kept
      · rcases List.mem_cons.mp listed with clash | later
        · exact absurd (congrArg Prod.fst clash) same
        · exact ⟨⟨reads, closure⟩, by simp, later⟩
      · exact ⟨call, List.mem_cons_of_mem _ kept, listed⟩
  · simpa [numbers] using restDistinct

/-- A call that has published its results ends. -/
theorem Published.finish (published : channel.Published) {closure : Option Closure}
    (member : ⟨[], closure⟩ ∈ channel.calls) (readerClosure : Option Closure) :
    Published { channel with
      readerClosure := readerClosure
      calls := channel.calls.erase ⟨[], closure⟩ } := by
  have perm := List.perm_cons_erase member
  have distinct := (perm.flatMap_right numbers).nodup_iff.mp published.distinct
  refine ⟨published.length_eq, published.known,
    fun call old => published.owed call (List.mem_of_mem_erase old),
    fun number result is => (published.covered number result is).imp id ?_,
    by simpa [numbers] using distinct⟩
  rintro ⟨call, old, listed⟩
  rcases List.mem_cons.mp (perm.mem_iff.mp old) with rfl | kept
  · simp at listed
  · exact ⟨call, kept, listed⟩

/-- A call under the lock that does not close the reader. -/
theorem Closing.commit (closing : channel.Closing) {outcome : Pipe × Bool × PipeCall}
    (readEnd : outcome.1.readEnd = channel.pipe.readEnd) (closure : outcome.2.2.closure = none) :
    (channel.commit outcome).Closing := by
  refine ⟨fun opened => ?_, fun closed => ?_⟩
  · simpa [Channel.commit, closure] using closing.opened (readEnd.symm.trans opened)
  · simp only [Channel.commit, List.filterMap_cons, closure]
    exact closing.closed (readEnd.symm.trans closed)

theorem Closing.closeReader (closing : channel.Closing) :
    Closing { channel.commit channel.pipe.closeReader with
      closedFirst := channel.closedFirst ||
        (channel.pipe.readEnd == .opened && channel.pipe.writeEnd == .opened) } := by
  cases reading : channel.pipe.readEnd with
  | opened =>
      obtain ⟨pending, none, first⟩ := closing.opened reading
      refine ⟨fun opened => ?_, fun _ => ?_⟩
      · simp [Channel.commit, Pipe.closeReader, reading] at opened
      · cases writing : channel.pipe.writeEnd <;>
          simp [Channel.commit, Pipe.closeReader, reading, pending, none, first, writing]
  | closed =>
      refine ⟨fun opened => ?_, fun _ => ?_⟩
      · simp [Channel.commit, Pipe.closeReader, reading] at opened
      · simpa [Channel.commit, Pipe.closeReader, reading] using closing.closed reading

/-- A call that has nothing left but the promise for the writer completes it. -/
theorem Closing.finish (closing : channel.Closing) {closure : Option Closure}
    (member : ⟨[], closure⟩ ∈ channel.calls) :
    Closing { channel with
      readerClosure := channel.readerClosure.or closure
      calls := channel.calls.erase ⟨[], closure⟩ } := by
  have perm := ((List.perm_cons_erase member).filterMap PipeCall.closure)
  cases closure with
  | none =>
      refine ⟨fun opened => ?_, fun closed => ?_⟩
      · obtain ⟨pending, none, first⟩ := closing.opened opened
        rw [none] at perm
        exact ⟨by simpa using pending, perm.nil_eq.symm, first⟩
      · have before := closing.closed closed
        rw [← List.perm_singleton] at before ⊢
        simpa using (perm.symm.append_left channel.readerClosure.toList).trans before
  | some closure =>
      simp only [List.filterMap_cons] at perm
      refine ⟨fun opened => ?_, fun closed => ?_⟩
      · obtain ⟨-, none, -⟩ := closing.opened opened
        simp [none] at perm
      · have before := closing.closed closed
        cases pending : channel.readerClosure with
        | some result =>
            have length := congrArg List.length before
            have others := perm.length_eq
            simp only [pending, Option.toList_some, List.length_append,
              List.length_cons] at length others
            omega
        | none =>
            rw [pending, Option.toList_none, List.nil_append] at before
            rw [before] at perm
            have same := List.singleton_perm.mp perm
            simpa using same.symm

/-- A call that publishes a result keeps what it does last. -/
theorem Closing.publish (closing : channel.Closing) {number : Nat} {result : ReadResult}
    {reads : List (Nat × ReadResult)} {closure : Option Closure}
    (member : ⟨(number, result) :: reads, closure⟩ ∈ channel.calls)
    (results : List (Option ReadResult)) :
    Closing { channel with
      results := results
      calls := ⟨reads, closure⟩ :: channel.calls.erase ⟨(number, result) :: reads, closure⟩ } := by
  have perm := ((List.perm_cons_erase member).filterMap PipeCall.closure)
  have same : (((⟨reads, closure⟩ : PipeCall) ::
      channel.calls.erase ⟨(number, result) :: reads, closure⟩).filterMap
        PipeCall.closure).Perm (channel.calls.filterMap PipeCall.closure) := perm.symm
  refine ⟨fun opened => ?_, fun closed => ?_⟩
  · obtain ⟨pending, none, first⟩ := closing.opened opened
    rw [none] at same
    exact ⟨pending, same.eq_nil, first⟩
  · have before := closing.closed closed
    rw [← List.perm_singleton] at before ⊢
    exact (same.append_left channel.readerClosure.toList).trans before

theorem numbers_map (reads : List Nat) (result : ReadResult) (closure : Option Closure) :
    numbers ⟨reads.map (·, result), closure⟩ = reads := by
  simp only [numbers, List.map_map]
  exact List.map_id reads

/-- A call completes reads that were waiting. -/
theorem numbers_sublist (pipe : Pipe) (text message : String) :
    (numbers pipe.closeReader.2.2).Sublist pipe.reads ∧
    (numbers (pipe.write text).2.2).Sublist pipe.reads ∧
    (numbers pipe.closeWriter.2.2).Sublist pipe.reads ∧
    (numbers (pipe.fail message).2.2).Sublist pipe.reads := by
  refine ⟨?_, ?_, ?_, ?_⟩
  · unfold Pipe.closeReader
    split
    · rw [numbers_map]
    · exact List.nil_sublist _
  · unfold Pipe.write
    split
    · split
      · cases reads : pipe.reads with
        | nil => exact List.nil_sublist _
        | cons first rest => simp [numbers]
      · exact List.nil_sublist _
    · exact List.nil_sublist _
  · unfold Pipe.closeWriter
    split
    · rw [numbers_map]
    · exact List.nil_sublist _
  · unfold Pipe.fail
    split
    · rw [numbers_map]
    · exact List.nil_sublist _

/-- Only closing the reader touches the read end and the promise for the writer. -/
theorem readEnd_eq (pipe : Pipe) (text message : String) :
    ((pipe.write text).1.readEnd = pipe.readEnd ∧ (pipe.write text).2.2.closure = none) ∧
    (pipe.closeWriter.1.readEnd = pipe.readEnd ∧ pipe.closeWriter.2.2.closure = none) ∧
    ((pipe.fail message).1.readEnd = pipe.readEnd ∧
      (pipe.fail message).2.2.closure = none) := by
  refine ⟨?_, ?_, ?_⟩
  · unfold Pipe.write
    split
    · split
      · cases pipe.reads <;> exact ⟨rfl, rfl⟩
      · exact ⟨rfl, rfl⟩
    · exact ⟨rfl, rfl⟩
  · unfold Pipe.closeWriter
    split <;> exact ⟨rfl, rfl⟩
  · unfold Pipe.fail
    split <;> exact ⟨rfl, rfl⟩

theorem read_readEnd {pipe after : Pipe} {number : Nat} {result : Option ReadResult}
    (read : pipe.read number = some (after, result)) : after.readEnd = pipe.readEnd := by
  simp only [Pipe.read] at read
  split at read <;>
    simp only [Option.some.injEq, Prod.mk.injEq, Option.map_eq_some_iff] at read
  · exact read.1 ▸ rfl
  · rw [← read.1]
  · exact read.1 ▸ rfl
  · obtain ⟨_, -, rfl, -⟩ := read
    rfl
  · rw [← read.1]

/-- A read is published at once if its result is known. -/
theorem Published.read (published : channel.Published) (pipe : Pipe)
    (result : Option ReadResult) :
    Published { channel with
      pipe := pipe
      results := channel.results ++ [result]
      decided := channel.decided ++ [result] } := by
  have same {number : Nat} {known : Option ReadResult} :
      (channel.decided ++ [result])[number]? = some known →
        channel.decided[number]? = some known ∨
          (channel.results ++ [result])[number]? = some known := by
    intro found
    rw [List.getElem?_append] at found ⊢
    rw [published.length_eq]
    split at found
    · exact .inl found
    · rename_i beyond
      simp [beyond, found]
  refine ⟨by simp [published.length_eq], fun number known found => ?_,
    fun call member entry listed => ?_, fun number known decided => ?_, published.distinct⟩
  · dsimp only at found ⊢
    rw [List.getElem?_append] at found ⊢
    rw [← published.length_eq]
    split at found
    · rename_i bound
      simpa [bound] using published.known number known found
    · rename_i beyond
      simpa [beyond] using found
  · obtain ⟨decided, pending⟩ := published.owed call member entry listed
    exact ⟨(List.getElem?_append_left (List.getElem?_eq_some_iff.mp decided).1).trans decided,
      (List.getElem?_append_left (List.getElem?_eq_some_iff.mp pending).1).trans pending⟩
  · rcases same decided with old | new
    · refine (published.covered number known old).imp (fun found => ?_) id
      exact (List.getElem?_append_left (List.getElem?_eq_some_iff.mp found).1).trans found
    · exact .inl new

theorem Sound.step (sound : channel.Sound) {event : PipeEvent}
    (stepped : channel.step event = some next) : next.Sound := by
  obtain ⟨⟨taken, tail, sequenced⟩, published, closing⟩ := sound
  -- A call that an operation makes under the lock completes reads that wait.
  have committed {outcome : Pipe × Bool × PipeCall}
      (waiting : (numbers outcome.2.2).Sublist channel.pipe.reads) :
      (channel.commit outcome).Published :=
    published.commit (waiting.nodup sequenced.reads_nodup) fun number member =>
      sequenced.undecided_iff.mpr (waiting.subset member)
  cases event with
  | read =>
      obtain ⟨after, result, taken', tail', read, kept⟩ := sequenced.read
      rw [← published.length_eq] at read
      simp only [Channel.step, read, Option.bind_eq_bind, Option.bind_some, Option.pure_def,
        Option.some.injEq] at stepped
      subst stepped
      have readEnd := read_readEnd read
      exact ⟨⟨taken', tail', kept⟩, published.read after result,
        ⟨fun opened => closing.opened (readEnd.symm.trans opened),
          fun closed => closing.closed (readEnd.symm.trans closed)⟩⟩
  | closeReader =>
      cases stepped
      have published := committed (numbers_sublist channel.pipe "" "").1
      exact ⟨⟨taken, sequenced.closeReader⟩, ⟨published.length_eq, published.known,
        published.owed, published.covered, published.distinct⟩, closing.closeReader⟩
  | write text =>
      cases stepped
      have published := committed (numbers_sublist channel.pipe text "").2.1
      obtain ⟨readEnd, closure⟩ := (readEnd_eq channel.pipe text "").1
      have closing := closing.commit readEnd closure
      exact ⟨sequenced.write text, ⟨published.length_eq, published.known, published.owed,
        published.covered, published.distinct⟩, ⟨closing.opened, closing.closed⟩⟩
  | closeWriter =>
      cases stepped
      obtain ⟨readEnd, closure⟩ := (readEnd_eq channel.pipe "" "").2.1
      exact ⟨⟨taken, sequenced.closeWriter⟩, committed (numbers_sublist channel.pipe "" "").2.2.1,
        closing.commit readEnd closure⟩
  | fail message =>
      cases stepped
      obtain ⟨readEnd, closure⟩ := (readEnd_eq channel.pipe "" message).2.2
      exact ⟨⟨taken, sequenced.fail message⟩,
        committed (numbers_sublist channel.pipe "" message).2.2.2, closing.commit readEnd closure⟩
  | complete call =>
      simp only [Channel.step] at stepped
      split at stepped
      case isFalse => simp at stepped
      case isTrue member =>
        obtain ⟨reads, closure⟩ := call
        match reads, closure with
        | (number, result) :: reads, closure =>
            cases stepped
            exact ⟨⟨taken, tail, sequenced⟩, published.publish member, closing.publish member _⟩
        | [], some closure =>
            cases stepped
            exact ⟨⟨taken, tail, sequenced⟩, published.finish member _, closing.finish member⟩
        | [], none =>
            cases stepped
            have finished := closing.finish member
            rw [Option.or_none] at finished
            exact ⟨⟨taken, tail, sequenced⟩, published.finish member _, finished⟩

theorem sound_of_reachable (reached : machine.Reachable channel) : channel.Sound :=
  reached.invariant Sound (by rintro _ rfl; exact sound_empty)
    fun _ _ _ sound _ stepped => sound.step stepped

end Channel

/-- The chunk that a read got. -/
def ReadResult.chunk : ReadResult → Option String
  | .ready text => if text = "" then none else some text
  | .failed _ => none

/-- The chunks that reads got, in the order of the reads. -/
def chunks (decided : List (Option ReadResult)) : List String :=
  decided.filterMap fun result => result.bind ReadResult.chunk

namespace Pipe

variable {pipe : Pipe} {decided tail : List (Option ReadResult)} {accepted taken : List String}

theorem chunks_ready {taken : List String} (nonempty : ∀ text ∈ taken, text ≠ "") :
    chunks (taken.map fun text => some (.ready text)) = taken := by
  induction taken with
  | nil => rfl
  | cons first rest ih =>
      have others := ih fun text member => nonempty text (List.mem_cons_of_mem _ member)
      simp only [chunks] at others ⊢
      simp [ReadResult.chunk, nonempty first (by simp), others]

/-- The reads after those that took a chunk get none. -/
theorem Sequenced.chunks_take (sequenced : pipe.Sequenced decided accepted taken tail)
    {number : Nat} (beyond : taken.length ≤ number) : chunks (decided.take number) = taken := by
  have none : ∀ result ∈ tail, result.bind ReadResult.chunk = none := by
    intro result member
    rcases sequenced.waiting with ⟨count, rfl, -, -⟩ | ⟨-, -, justified⟩
    · simp [List.eq_of_mem_replicate member]
    · match result, justified result member with
      | some (.ready _), justified => simp [ReadResult.chunk, justified.1]
      | some (.failed _), _ => rfl
  have rest : (tail.take (number - taken.length)).filterMap
      (fun result => result.bind ReadResult.chunk) = [] :=
    List.filterMap_eq_nil_iff.mpr fun result member => none result (List.mem_of_mem_take member)
  have own := chunks_ready fun text member =>
    sequenced.nonempty text (sequenced.taken_prefix.subset member)
  simp only [chunks] at own ⊢
  rw [sequenced.decided_eq, List.take_append, List.filterMap_append, List.length_map, rest,
    List.append_nil, List.take_of_length_le (by simpa using beyond), own]

/-- A read that got no chunk comes after those that did. -/
theorem Sequenced.justified (sequenced : pipe.Sequenced decided accepted taken tail)
    {number : Nat} {result : ReadResult} (found : decided[number]? = some (some result))
    (empty : result.chunk = none) :
    taken.length ≤ number ∧ pipe.Justified accepted taken (some result) := by
  rw [sequenced.decided_eq, List.getElem?_append] at found
  simp only [List.length_map, List.getElem?_map] at found
  split at found
  · rename_i bound
    obtain ⟨text, listed, is⟩ := Option.map_eq_some_iff.mp found
    have nonempty : text ≠ "" :=
      sequenced.nonempty text (sequenced.taken_prefix.subset (List.mem_of_getElem? listed))
    simp only [Option.some.injEq] at is
    simp [← is, ReadResult.chunk, nonempty] at empty
  · rename_i beyond
    refine ⟨Nat.le_of_not_lt beyond, ?_⟩
    rcases sequenced.waiting with ⟨count, rfl, -, -⟩ | ⟨-, -, justified⟩
    · simp [List.getElem?_replicate] at found
    · exact justified _ (List.mem_of_getElem? found)

end Pipe

namespace Channel

/-- A pipe is a queue of chunks.  A result is that of a read whose future is complete or
will be completed by the call that decided it. -/
structure Delivers (channel : Channel) : Prop where
  /-- The reads that get a chunk get the accepted chunks in order. -/
  fifo : chunks channel.decided <+: channel.accepted
  decided_iff : ∀ (number : Nat) (result : ReadResult),
    channel.decided[number]? = some (some result) ↔
      channel.results[number]? = some (some result) ∨
        ∃ call ∈ channel.calls, (number, result) ∈ call.reads
  /-- The end of the pipe is reported behind all accepted chunks. -/
  endOfFile : ∀ number : Nat, channel.decided[number]? = some (some (.ready "")) →
    channel.pipe.writeEnd = .closed ∧
      channel.accepted = chunks (channel.decided.take number)
  failed : ∀ (number : Nat) (message : String),
    channel.decided[number]? = some (some (.failed message)) →
      channel.pipe.readEnd = .closed ∨ channel.pipe.writeEnd = .failed ∧
        channel.pipe.failure = some message ∧
        channel.accepted = chunks (channel.decided.take number)
  /-- A read without a result waits in the pipe. -/
  undecided_iff : ∀ number : Nat,
    channel.decided[number]? = some none ↔ number ∈ channel.pipe.reads
  waiting : channel.pipe.reads ≠ [] → channel.pipe.writes = [] ∧
    channel.pipe.readEnd = .opened ∧ channel.pipe.writeEnd = .opened
  /-- A call that closes an end completes all reads that wait. -/
  closing : ∀ outcome, outcome = channel.pipe.closeReader ∨ outcome = channel.pipe.closeWriter ∨
    (∃ message, outcome = channel.pipe.fail message) →
      numbers outcome.2.2 = channel.pipe.reads ∧ outcome.1.reads = []
  write_iff : ∀ text, (channel.pipe.write text).2.1 = true ↔
    channel.pipe.readEnd = .opened ∧ channel.pipe.writeEnd = .opened
  /-- The writer learns that the reader was closed if the writer was open then. -/
  readerClosed_iff : channel.closedFirst = true ↔
    channel.readerClosure = some .ready ∨
      channel.readerClosure = none ∧ ∃ call ∈ channel.calls, call.closure = some .ready
  /-- There is a failure to return whenever the writer has failed. -/
  read_isSome : ∀ number, (channel.pipe.read number).isSome = true

variable {channel : Channel}

theorem Sound.readerClosed_iff (sound : channel.Sound) : channel.closedFirst = true ↔
    channel.readerClosure = some .ready ∨
      channel.readerClosure = none ∧ ∃ call ∈ channel.calls, call.closure = some .ready := by
  have member (closure : Closure) : (∃ call ∈ channel.calls, call.closure = some closure) ↔
      closure ∈ channel.calls.filterMap PipeCall.closure := by
    simp
  rw [member]
  cases reading : channel.pipe.readEnd with
  | opened =>
      obtain ⟨pending, none, first⟩ := sound.closing.opened reading
      simp [pending, none, first]
  | closed =>
      have closed := sound.closing.closed reading
      cases pending : channel.readerClosure with
      | none =>
          rw [pending, Option.toList_none, List.nil_append] at closed
          rw [closed]
          cases channel.closedFirst <;> simp
      | some closure =>
          rw [pending, Option.toList_some, List.singleton_append, List.cons.injEq] at closed
          rw [closed.1]
          cases channel.closedFirst <;> simp

/-- In every interleaving of calls on a pipe, the pipe is a queue of chunks. -/
theorem pipe_delivers {channel : Channel} (reached : machine.Reachable channel) :
    channel.Delivers := by
  have sound := sound_of_reachable reached
  obtain ⟨taken, tail, sequenced⟩ := sound.sequenced
  have all : chunks channel.decided = taken := by
    have beyond : taken.length ≤ channel.decided.length := by
      rw [sequenced.length_taken]
      omega
    have whole := sequenced.chunks_take beyond
    rwa [List.take_length] at whole
  have shut (waits : channel.pipe.reads ≠ []) : channel.pipe.writes = [] ∧
      channel.pipe.readEnd = .opened ∧ channel.pipe.writeEnd = .opened := by
    rcases sequenced.waiting with ⟨count, rfl, reads, both⟩ | ⟨none, -, -⟩
    · have positive : 0 < count := by
        rcases Nat.eq_zero_or_pos count with rfl | positive
        · exact absurd reads (by simpa using waits)
        · exact positive
      exact ⟨sequenced.drained (by simp; omega), both positive⟩
    · exact absurd none waits
  refine ⟨all ▸ sequenced.taken_prefix, fun number result => ⟨sound.published.covered number result,
    ?_⟩, fun number found => ?_, fun number message found => ?_,
    fun number => sequenced.undecided_iff, shut, fun outcome is => ?_, fun text => ?_,
    sound.readerClosed_iff, fun number => ?_⟩
  · rintro (found | ⟨call, member, listed⟩)
    · exact sound.published.known number result found
    · exact (sound.published.owed call member (number, result) listed).1
  · obtain ⟨beyond, -, writing, accepted⟩ := sequenced.justified found (by simp [ReadResult.chunk])
    exact ⟨writing, accepted.trans (sequenced.chunks_take beyond).symm⟩
  · obtain ⟨beyond, justified⟩ := sequenced.justified found rfl
    exact justified.imp id fun ⟨writing, failure, accepted⟩ =>
      ⟨writing, failure, accepted.trans (sequenced.chunks_take beyond).symm⟩
  · by_cases waits : channel.pipe.reads = []
    · rcases is with rfl | rfl | ⟨message, rfl⟩
      · simp only [Pipe.closeReader]
        split <;> simp [numbers, waits]
      · simp only [Pipe.closeWriter]
        split <;> simp [numbers, waits]
      · simp only [Pipe.fail]
        split <;> simp [numbers, waits]
    · obtain ⟨-, reading, writing⟩ := shut waits
      rcases is with rfl | rfl | ⟨message, rfl⟩
      · simp [Pipe.closeReader, reading, numbers_map]
      · simp [Pipe.closeWriter, writing, numbers_map]
      · simp [Pipe.fail, writing, numbers_map]
  · simp only [Pipe.write]
    split
    · rename_i both
      split
      · cases channel.pipe.reads <;> simp [both]
      · simp [both]
    · rename_i either
      simp only [Bool.false_eq_true, false_iff]
      exact fun both => either ⟨both.2, both.1⟩
  · simp only [Pipe.read]
    split <;> simp [sequenced.failure, *]

/-- A read waits for the first chunk; the second is read after the writer was closed. -/
theorem pipe_delivers_interleaved :
    ∃ channel, machine.run empty
        [.read, .read, .write "a", .closeWriter, .complete ⟨[(1, .ready "")], none⟩,
          .complete ⟨[(0, .ready "a")], none⟩, .closeReader] = some channel ∧
      channel.results = [some (.ready "a"), some (.ready "")] ∧ channel.Delivers := by
  obtain ⟨channel, ran, results⟩ : ∃ channel ∈ machine.run empty
      [.read, .read, .write "a", .closeWriter, .complete ⟨[(1, .ready "")], none⟩,
        .complete ⟨[(0, .ready "a")], none⟩, .closeReader],
      channel.results = [some (.ready "a"), some (.ready "")] := by
    decide
  exact ⟨channel, ran, results, pipe_delivers (.of_run rfl ran)⟩

end Channel

end Libprocess.Http
