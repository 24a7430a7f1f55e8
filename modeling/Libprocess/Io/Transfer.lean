import Libprocess.Concurrency.Holdings
import Libprocess.Io.Redirect

/-!
# What is transferred

`redirect` reads from one file and writes to one file, whatever becomes of the descriptors that it
was called with.  Hooks get what is read, and the same is written.  Its own descriptors are closed
once.
-/

namespace Libprocess.Io

open Concurrency

variable {arguments : Arguments} {state next : Redirect}

/-! ## Stages -/

namespace Stage

/-- The descriptors for the source, and for the target. -/
def readers : Stage → List Int
  | .setup source _ _ | .reading source _ | .handling source _ _ _ | .dupTo source _ _
  | .prepare source _ _ _ _ | .writing source _ _ _ _ | .written source _ => [source]
  | .start | .dupFrom _ | .finished _ => []

def writers : Stage → List Int
  | .dupFrom target | .setup _ target _ | .reading _ target | .handling _ target _ _
  | .dupTo _ target _ | .written _ target => [target]
  | .prepare _ target fd _ _ | .writing _ target fd _ _ => [fd, target]
  | .start | .finished _ => []

def held (stage : Stage) : List Int := stage.readers ++ stage.writers

/-- What was read and is not yet written. -/
def unwritten : Stage → List UInt8
  | .handling _ _ data _ | .dupTo _ _ data | .prepare _ _ _ data _ => data
  | .writing _ _ _ data index => data.drop index
  | _ => []

/-- What was read and has not been shown to a hook. -/
def unseen (stage : Stage) (hook : Nat) : List UInt8 :=
  match stage with
  | .handling _ _ data next => if next ≤ hook then data else []
  | _ => []

/-- Nothing has been read yet. -/
def early : Stage → Bool
  | .start | .dupFrom _ => true
  | _ => false

def Finished (stage : Stage) : Prop := ∃ ended, stage = .finished ended

/-- A step that changes nothing else. -/
inductive Advances (hooks : Nat) : Stage → Stage → Prop where
  | setup {source target : Int} {call other : Setup} :
      Advances hooks (.setup source target call) (.setup source target other)
  | starts {source target : Int} {call : Setup} :
      Advances hooks (.setup source target call) (.reading source target)
  | handled {source target : Int} {data : List UInt8} {hook : Nat} : ¬ hook < hooks →
      Advances hooks (.handling source target data hook) (.dupTo source target data)
  | prepare {source target fd : Int} {data : List UInt8} {before after : Bool} :
      Advances hooks (.prepare source target fd data before) (.prepare source target fd data after)
  | writes {source target fd : Int} {data : List UInt8} {before : Bool} :
      Advances hooks (.prepare source target fd data before) (.writing source target fd data 0)
  | proceeds {source target : Int} :
      Advances hooks (.written source target) (.reading source target)

end Stage

/-! ## Steps -/

/-- What a step does; the steps of other code are foreign. -/
inductive Stepped (arguments : Arguments) (state : Redirect) : Bool → Redirect → Prop where
  | opens {fd : Int} {file : Nat} : state.stage = .start → state.table fd = none →
      Stepped arguments state false
        { state.opened fd file with stage := .dupFrom fd, targetFile := some file }
  | dups {target fd : Int} {file : Nat} : state.stage = .dupFrom target →
      state.table fd = none → Stepped arguments state false
        { state.opened fd file with
          stage := .setup fd target .cloexecFrom
          sourceFile := some file }
  | redups {source target fd : Int} {data : List UInt8} {descriptor : Descriptor} :
      state.stage = .dupTo source target data → state.table fd = none →
      state.table target = some descriptor → Stepped arguments state false
        { state.opened fd descriptor.file with stage := .prepare source target fd data true }
  | advances {stage : Stage} : state.stage.Advances arguments.hooks stage →
      Stepped arguments state false { state with stage := stage }
  | reads {source target : Int} {data : List UInt8} {descriptor : Descriptor} :
      state.stage = .reading source target → state.table source = some descriptor →
      Stepped arguments state false { state with
        stage := .handling source target data 0
        reads := state.reads ++ [(descriptor.file, data)] }
  | hooks {source target : Int} {data : List UInt8} {hook : Nat} :
      state.stage = .handling source target data hook → Stepped arguments state false { state with
        stage := .handling source target data (hook + 1)
        delivered := Function.update state.delivered hook (state.delivered hook ++ data) }
  | writes {source target fd : Int} {data : List UInt8} {index length : Nat}
      {descriptor : Descriptor} : state.stage = .writing source target fd data index →
      state.table fd = some descriptor → Stepped arguments state false { state with
        writes := state.writes ++ [(descriptor.file, (data.drop index).take length)]
        stage := .writing source target fd data (index + length) }
  | wrote {source target fd : Int} {data : List UInt8} {index length : Nat}
      {descriptor : Descriptor} : state.stage = .writing source target fd data index →
      state.table fd = some descriptor → index + length = data.length →
      Stepped arguments state false { state with
        writes := state.writes ++ [(descriptor.file, (data.drop index).take length)]
        stage := .written source target
        closing := state.closing ++ [fd] }
  | finishes {ended : Ended} {closing : List Int} : ¬ state.stage.Finished →
      closing.Perm state.stage.held → (∀ hook, state.stage.unseen hook = []) →
      (ended = .ready → state.stage.unwritten = []) →
      Stepped arguments state false (state.finish ended closing)
  | closes {fd : Int} : fd ∈ state.closing → Stepped arguments state false { state with
      closing := state.closing.erase fd
      table := Function.update state.table fd none }
  | discard : Stepped arguments state false { state with discard := true }
  | otherOpens {fd : Int} {file : Nat} : state.table fd = none →
      Stepped arguments state true
        { state with table := Function.update state.table fd (some ⟨.others, file⟩) }
  | otherCloses {fd : Int} {descriptor : Descriptor} : state.table fd = some descriptor →
      descriptor.owner = .others → Stepped arguments state true
        { state with table := Function.update state.table fd none }

def Move.foreign : Move → Bool
  | .otherOpens _ _ | .otherCloses _ => true
  | _ => false

namespace Redirect

theorem table_of_unused {fd : Int} (unused : state.unused fd = true) : state.table fd = none := by
  simp only [Redirect.unused, Bool.and_eq_true, Option.isNone_iff_eq_none] at unused
  exact unused.2

theorem acquire_stepped {fd : Int} {null : Nat} (free : state.table fd = none)
    (acquired : state.acquire arguments fd null = some next) :
    Stepped arguments state false next := by
  unfold acquire at acquired
  split at acquired
  · next stage =>
      split at acquired
      · cases acquired
        exact .opens stage free
      · obtain ⟨descriptor, _, same⟩ := Option.bind_eq_some_iff.mp acquired
        cases same
        exact .opens stage free
  · next stage =>
      obtain ⟨descriptor, _, same⟩ := Option.bind_eq_some_iff.mp acquired
      cases same
      exact .dups stage free
  · next stage =>
      obtain ⟨descriptor, stored, same⟩ := Option.bind_eq_some_iff.mp acquired
      cases same
      exact .redups stage free stored
  · cases acquired

/-- The future is completed in a stage in which the hooks are done. -/
theorem finish_stepped {stage : Stage} {ended : Ended} {closing : List Int}
    (current : state.stage = stage) (running : ∀ ended, stage ≠ .finished ended)
    (perm : closing.Perm stage.held) (seen : ∀ hook, stage.unseen hook = [])
    (ready : ended = .ready → stage.unwritten = []) :
    Stepped arguments state false (state.finish ended closing) := by
  subst current
  exact .finishes (fun finished => running _ finished.choose_spec) perm seen ready

theorem setupStep_stepped {move : Move} (stepped : state.setupStep arguments move = some next) :
    Stepped arguments state move.foreign next := by
  unfold setupStep at stepped
  split at stepped
  · split at stepped
    · next usable => exact acquire_stepped (table_of_unused usable.1) stepped
    · cases stepped
  · unfold acquireFails at stepped
    split at stepped <;> cases stepped
    all_goals next stage => exact finish_stepped stage nofun .rfl (fun _ => rfl) nofun
  · split at stepped <;> cases stepped
    next call stage =>
      refine .advances ?_
      rw [stage]
      cases call <;> first | exact .setup | exact .starts
  · split at stepped <;> cases stepped
    next stage => exact finish_stepped stage nofun .rfl (fun _ => rfl) nofun
  · cases stepped

theorem spliceStep_stepped {move : Move} (stepped : state.spliceStep arguments move = some next) :
    Stepped arguments state move.foreign next := by
  unfold spliceStep at stepped
  split at stepped
  · split at stepped <;> try cases stepped
    next stage =>
      split at stepped <;> try cases stepped
      obtain ⟨descriptor, stored, same⟩ := Option.bind_eq_some_iff.mp stepped
      cases same
      exact .reads stage stored
  · split at stepped <;> cases stepped
    next stage => exact finish_stepped stage nofun .rfl (fun _ => rfl) fun _ => rfl
  · split at stepped <;> cases stepped
    next stage => exact finish_stepped stage nofun .rfl (fun _ => rfl) nofun
  · split at stepped <;> try cases stepped
    next stage =>
      split at stepped <;> cases stepped
      · exact .hooks stage
      · next done =>
          refine .advances ?_
          rw [stage]
          exact .handled done
  · split at stepped <;> cases stepped
    next stage =>
      refine .advances ?_
      rw [stage]
      exact .proceeds
  · split at stepped
    · next stage =>
        split at stepped <;> cases stepped
        exact finish_stepped stage nofun .rfl (fun _ => rfl) nofun
    · next stage =>
        split at stepped <;> cases stepped
        exact finish_stepped stage nofun .rfl (fun _ => rfl) nofun
    · next stage =>
        split at stepped <;> cases stepped
        exact finish_stepped stage nofun (List.Perm.swap _ _ _) (fun _ => rfl) nofun
    · cases stepped
  · cases stepped

theorem writeStep_stepped {move : Move} (stepped : state.writeStep move = some next) :
    Stepped arguments state move.foreign next := by
  unfold writeStep at stepped
  split at stepped
  · split at stepped <;> cases stepped
    · next stage =>
        refine .advances ?_
        rw [stage]
        exact .prepare
    · next stage =>
        refine .advances ?_
        rw [stage]
        exact .writes
  · split at stepped <;> cases stepped
    next stage =>
      exact finish_stepped stage nofun (List.Perm.swap _ _ _) (fun _ => rfl) nofun
  · split at stepped <;> try cases stepped
    next stage =>
      split at stepped <;> try cases stepped
      obtain ⟨descriptor, stored, same⟩ := Option.bind_eq_some_iff.mp stepped
      cases same
      split
      · exact .writes stage stored
      · next whole => exact .wrote stage stored (Decidable.not_not.mp whole)
  · split at stepped <;> cases stepped
    next stage =>
      exact finish_stepped stage nofun (List.Perm.swap _ _ _) (fun _ => rfl) nofun
  · cases stepped

theorem otherStep_stepped {move : Move} (stepped : state.otherStep move = some next) :
    Stepped arguments state move.foreign next := by
  unfold otherStep at stepped
  split at stepped
  · split at stepped <;> cases stepped
    next member => exact .closes member
  · cases stepped
    exact .discard
  · split at stepped <;> cases stepped
    next unused => exact .otherOpens (table_of_unused unused)
  · split at stepped <;> cases stepped
    next stored => exact .otherCloses stored rfl
  · cases stepped

theorem step_stepped {move : Move} (stepped : state.step arguments move = some next) :
    Stepped arguments state move.foreign next := by
  simp only [Redirect.step, Option.or_eq_some_iff] at stepped
  obtain setup | ⟨_, splice | ⟨_, write | ⟨_, other⟩⟩⟩ := stepped
  · exact state.setupStep_stepped setup
  · exact state.spliceStep_stepped splice
  · exact state.writeStep_stepped write
  · exact state.otherStep_stepped other

end Redirect

/-! ## The invariant -/

namespace Redirect

/-- The descriptors that `redirect` has to close. -/
def held (state : Redirect) : List Int := state.stage.held ++ state.closing

theorem not_held {fd : Int} (absent : fd ∉ state.held) :
    fd ∉ state.stage.readers ∧ fd ∉ state.stage.writers := by
  simp only [held, Stage.held, List.mem_append, not_or] at absent
  exact absent.1

def consumed (state : Redirect) : List UInt8 := state.reads.flatMap Prod.snd

def output (state : Redirect) : List UInt8 := state.writes.flatMap Prod.snd

end Redirect

/-- Descriptors refer to a file. -/
def Refers (table : Int → Option Descriptor) (file : Option Nat) (fds : List Int) : Prop :=
  ∀ fd ∈ fds, ∃ descriptor, table fd = some descriptor ∧ file = some descriptor.file

theorem Refers.update {table : Int → Option Descriptor} {file : Option Nat} {fds : List Int}
    (refers : Refers table file fds) {fd : Int} {stored : Option Descriptor} (absent : fd ∉ fds) :
    Refers (Function.update table fd stored) file fds := by
  intro other member
  obtain ⟨descriptor, found, same⟩ := refers other member
  refine ⟨descriptor, ?_, same⟩
  rw [Function.update_of_ne, found]
  exact fun equal => absent (equal ▸ member)

/-- What holds in every state of `redirect`. -/
structure Sound (arguments : Arguments) (state : Redirect) : Prop where
  holds : Holds Descriptor.owner .redirect state.table state.held
  readers : Refers state.table state.sourceFile state.stage.readers
  writers : Refers state.table state.targetFile state.stage.writers
  reads : ∀ read ∈ state.reads, state.sourceFile = some read.1
  writes : ∀ write ∈ state.writes, state.targetFile = some write.1
  early : state.stage.early = true → state.reads = [] ∧ state.writes = []
  seen : ∀ hook < arguments.hooks,
    state.delivered hook ++ state.stage.unseen hook = state.consumed
  written : ∃ rest, state.output ++ rest = state.consumed ∧
    (¬ state.stage.Finished ∨ state.stage = .finished .ready → rest = state.stage.unwritten)

namespace Sound

theorem new {table : Int → Option Descriptor}
    (others : ∀ fd descriptor, table fd = some descriptor → descriptor.owner = .others) :
    Sound arguments (.new table) where
  holds := .nil fun fd descriptor stored own => by
    rw [others fd descriptor stored] at own
    cases own
  readers _ member := absurd member List.not_mem_nil
  writers _ member := absurd member List.not_mem_nil
  reads _ member := absurd member List.not_mem_nil
  writes _ member := absurd member List.not_mem_nil
  early _ := ⟨rfl, rfl⟩
  seen _ _ := rfl
  written := ⟨[], rfl, fun _ => rfl⟩

variable (sound : Sound arguments state)
include sound

/-- The invariant, with the stage that is known. -/
theorem at_stage {stage : Stage} (current : state.stage = stage) :
    Sound arguments { state with stage := stage } := by
  subst current
  exact sound

theorem left (running : ∀ ended, state.stage ≠ .finished ended) :
    state.output ++ state.stage.unwritten = state.consumed := by
  obtain ⟨rest, whole, left⟩ := sound.written
  rw [← left (.inl fun finished => running _ finished.choose_spec), whole]

/-- Other code changes the table where `redirect` has no descriptor. -/
theorem foreign {fd : Int} {stored : Option Descriptor} (absent : fd ∉ state.held)
    (others : ∀ descriptor, stored = some descriptor → descriptor.owner ≠ .redirect) :
    Sound arguments { state with table := Function.update state.table fd stored } :=
  { sound with
    holds := sound.holds.other absent others
    readers := sound.readers.update (Redirect.not_held absent).1
    writers := sound.writers.update (Redirect.not_held absent).2 }

theorem closes {fd : Int} (closing : fd ∈ state.closing) :
    Sound arguments { state with
      closing := state.closing.erase fd
      table := Function.update state.table fd none } := by
  have absent : fd ∉ state.stage.held :=
    fun member => (List.nodup_append.mp sound.holds.nodup).2.2 fd member fd closing rfl
  have apart : fd ∉ state.stage.readers ∧ fd ∉ state.stage.writers := by
    simpa only [Stage.held, List.mem_append, not_or] using absent
  have erased := sound.holds.erase fd
  rw [Redirect.held, List.erase_append_right _ absent] at erased
  exact ⟨erased, sound.readers.update apart.1, sound.writers.update apart.2, sound.reads,
    sound.writes, sound.early, sound.seen, sound.written⟩

theorem finishes {ended : Ended} {closing : List Int} (running : ¬ state.stage.Finished)
    (perm : closing.Perm state.stage.held) (seen : ∀ hook, state.stage.unseen hook = [])
    (ready : ended = .ready → state.stage.unwritten = []) :
    Sound arguments (state.finish ended closing) where
  holds := sound.holds.perm ((perm.append_left _).trans List.perm_append_comm)
  readers _ member := absurd member List.not_mem_nil
  writers _ member := absurd member List.not_mem_nil
  reads := sound.reads
  writes := sound.writes
  early := nofun
  seen hook bound := by
    have all := sound.seen hook bound
    rw [seen hook] at all
    exact all
  written := by
    obtain ⟨rest, whole, left⟩ := sound.written
    refine ⟨rest, whole, fun which => ?_⟩
    obtain unfinished | done := which
    · exact absurd ⟨_, rfl⟩ unfinished
    · cases done
      exact (left (.inl running)).trans (ready rfl)

theorem opens {fd : Int} {file : Nat} (start : state.stage = .start)
    (free : state.table fd = none) :
    Sound arguments { state.opened fd file with
      stage := .dupFrom fd
      targetFile := some file } := by
  have sound := sound.at_stage start
  obtain ⟨unread, unwritten⟩ := sound.early rfl
  refine ⟨sound.holds.insert free rfl, fun _ member => absurd member List.not_mem_nil,
    fun other member => ?_, sound.reads, fun write member => ?_, fun _ => ⟨unread, unwritten⟩,
    sound.seen, [], sound.left nofun, fun _ => rfl⟩
  · rw [List.mem_singleton.mp member]
    exact ⟨⟨.redirect, file⟩, Function.update_self _ _ _, rfl⟩
  · exact absurd (unwritten ▸ member) List.not_mem_nil

theorem dups {target fd : Int} {file : Nat} (dup : state.stage = .dupFrom target)
    (free : state.table fd = none) :
    Sound arguments { state.opened fd file with
      stage := .setup fd target .cloexecFrom
      sourceFile := some file } := by
  have sound := sound.at_stage dup
  have absent := Redirect.not_held (sound.holds.not_mem_of_none free)
  obtain ⟨unread, _⟩ := sound.early rfl
  refine ⟨sound.holds.insert free rfl, fun other member => ?_, sound.writers.update absent.2,
    fun read member => ?_, sound.writes, nofun, sound.seen, [], sound.left nofun, fun _ => rfl⟩
  · rw [List.mem_singleton.mp member]
    exact ⟨⟨.redirect, file⟩, Function.update_self _ _ _, rfl⟩
  · exact absurd (unread ▸ member) List.not_mem_nil

theorem redups {source target fd : Int} {data : List UInt8} {descriptor : Descriptor}
    (dup : state.stage = .dupTo source target data) (free : state.table fd = none)
    (stored : state.table target = some descriptor) :
    Sound arguments { state.opened fd descriptor.file with
      stage := .prepare source target fd data true } := by
  have sound := sound.at_stage dup
  have absent := Redirect.not_held (sound.holds.not_mem_of_none free)
  obtain ⟨found, same, file⟩ := sound.writers target List.mem_cons_self
  cases stored.symm.trans same
  refine ⟨(sound.holds.insert free rfl).perm (List.Perm.swap _ _ _),
    sound.readers.update absent.1, fun other member => ?_, sound.reads, sound.writes, nofun,
    sound.seen, data, sound.left nofun, fun _ => rfl⟩
  obtain new | old := List.mem_cons.mp member
  · rw [new]
    exact ⟨_, Function.update_self _ _ _, file⟩
  · exact sound.writers.update absent.2 other old

theorem advances {stage : Stage} (advances : state.stage.Advances arguments.hooks stage) :
    Sound arguments { state with stage := stage } := by
  obtain ⟨holds, readers, writers, reads, writes, _, seen, rest, whole, left⟩ := sound
  unfold Redirect.held at holds
  generalize state.stage = before at *
  have active : ¬ before.Finished := by
    rintro ⟨ended, rfl⟩
    cases advances
  have rest := left (.inl active)
  subst rest
  cases advances with
  | @handled source target data next done =>
      refine ⟨holds, readers, writers, reads, writes, nofun, fun hook bound => ?_, _, whole,
        fun _ => rfl⟩
      have all := seen hook bound
      have called : ¬ next ≤ hook := by omega
      simp only [Stage.unseen, if_neg called] at all
      exact all
  | _ => exact ⟨holds, readers, writers, reads, writes, nofun, seen, _, whole, fun _ => rfl⟩

theorem reading {source target : Int} {data : List UInt8} {descriptor : Descriptor}
    (stage : state.stage = .reading source target) (stored : state.table source = some descriptor) :
    Sound arguments { state with
      stage := .handling source target data 0
      reads := state.reads ++ [(descriptor.file, data)] } := by
  have sound := sound.at_stage stage
  have whole := sound.left nofun
  have more : (state.reads ++ [(descriptor.file, data)]).flatMap Prod.snd =
      state.consumed ++ data := by
    rw [List.flatMap_append, List.flatMap_singleton]
    rfl
  refine ⟨sound.holds, sound.readers, sound.writers, fun read member => ?_, sound.writes, nofun,
    fun hook bound => ?_, data, ?_, fun _ => rfl⟩
  · obtain earlier | last := List.mem_append.mp member
    · exact sound.reads read earlier
    · obtain ⟨found, same, file⟩ := sound.readers source List.mem_cons_self
      cases stored.symm.trans same
      rw [List.mem_singleton.mp last]
      exact file
  · have all := sound.seen hook bound
    simp only [Stage.unseen, List.append_nil] at all
    rw [Redirect.consumed, more]
    exact congrArg (· ++ data) all
  · simp only [Stage.unwritten, List.append_nil] at whole
    rw [Redirect.consumed, more]
    exact congrArg (· ++ data) whole

theorem hooks {source target : Int} {data : List UInt8} {hook : Nat}
    (stage : state.stage = .handling source target data hook) :
    Sound arguments { state with
      stage := .handling source target data (hook + 1)
      delivered := Function.update state.delivered hook (state.delivered hook ++ data) } := by
  have sound := sound.at_stage stage
  refine ⟨sound.holds, sound.readers, sound.writers, sound.reads, sound.writes, nofun,
    fun other bound => ?_, data, sound.left nofun, fun _ => rfl⟩
  have all := sound.seen other bound
  simp only [Stage.unseen] at all ⊢
  by_cases same : other = hook
  · subst same
    rw [if_pos (Nat.le_refl _)] at all
    rw [Function.update_self, if_neg (by omega), List.append_nil]
    exact all
  · rw [Function.update_of_ne same]
    have order : hook + 1 ≤ other ↔ hook ≤ other := by omega
    simp only [order]
    exact all

/-- What `io::write` has written goes to the file of the target, and continues what it has written
before. -/
theorem outputs {source target fd : Int} {data : List UInt8} {index : Nat} (length : Nat)
    {descriptor : Descriptor} (stage : state.stage = .writing source target fd data index)
    (stored : state.table fd = some descriptor) :
    (∀ write ∈ state.writes ++ [(descriptor.file, (data.drop index).take length)],
      state.targetFile = some write.1) ∧
    (state.writes ++ [(descriptor.file, (data.drop index).take length)]).flatMap Prod.snd ++
      data.drop (index + length) = state.consumed := by
  have sound := sound.at_stage stage
  constructor
  · intro write member
    obtain earlier | last := List.mem_append.mp member
    · exact sound.writes write earlier
    · obtain ⟨found, same, file⟩ := sound.writers fd List.mem_cons_self
      cases stored.symm.trans same
      rw [List.mem_singleton.mp last]
      exact file
  · refine Eq.trans ?_ (sound.left nofun)
    rw [List.flatMap_append, List.flatMap_singleton, List.append_assoc, ← List.drop_drop,
      List.take_append_drop]
    rfl

theorem writing {source target fd : Int} {data : List UInt8} {index length : Nat}
    {descriptor : Descriptor} (stage : state.stage = .writing source target fd data index)
    (stored : state.table fd = some descriptor) :
    Sound arguments { state with
      writes := state.writes ++ [(descriptor.file, (data.drop index).take length)]
      stage := .writing source target fd data (index + length) } := by
  obtain ⟨file, whole⟩ := sound.outputs length stage stored
  have sound := sound.at_stage stage
  exact ⟨sound.holds, sound.readers, sound.writers, sound.reads, file, nofun, sound.seen, _, whole,
    fun _ => rfl⟩

theorem wrote {source target fd : Int} {data : List UInt8} {index length : Nat}
    {descriptor : Descriptor} (stage : state.stage = .writing source target fd data index)
    (stored : state.table fd = some descriptor) (all : index + length = data.length) :
    Sound arguments { state with
      writes := state.writes ++ [(descriptor.file, (data.drop index).take length)]
      stage := .written source target
      closing := state.closing ++ [fd] } := by
  obtain ⟨file, whole⟩ := sound.outputs length stage stored
  rw [all, List.drop_length] at whole
  have sound := sound.at_stage stage
  have moved : (target :: (state.closing ++ [fd])).Perm (fd :: target :: state.closing) := by
    rw [← List.cons_append]
    exact List.perm_append_comm
  exact ⟨sound.holds.perm (moved.cons source), sound.readers,
    fun other member => sound.writers other (List.mem_cons_of_mem _ member), sound.reads, file,
    nofun, sound.seen, [], whole, fun _ => rfl⟩

theorem step {own : Bool} (stepped : Stepped arguments state own next) : Sound arguments next := by
  cases stepped with
  | opens start free => exact sound.opens start free
  | dups dup free => exact sound.dups dup free
  | redups dup free stored => exact sound.redups dup free stored
  | advances advances => exact sound.advances advances
  | reads stage stored => exact sound.reading stage stored
  | hooks stage => exact sound.hooks stage
  | writes stage stored => exact sound.writing stage stored
  | wrote stage stored all => exact sound.wrote stage stored all
  | finishes running perm seen ready => exact sound.finishes running perm seen ready
  | closes closing => exact sound.closes closing
  | discard => exact { sound with }
  | otherOpens free =>
      refine sound.foreign (sound.holds.not_mem_of_none free) ?_
      rintro _ ⟨⟩
      exact nofun
  | otherCloses stored other =>
      exact sound.foreign (sound.holds.not_mem_of_other stored (by rw [other]; exact nofun)) nofun

end Sound

theorem sound_of_reachable (reached : (redirect arguments).Reachable state) :
    Sound arguments state := by
  apply reached.invariant (Sound arguments)
  · rintro _ ⟨table, others, rfl⟩
    exact .new others
  · intro _ _ _ sound _ stepped
    exact sound.step (Redirect.step_stepped stepped)

/-! ## What others own is left alone -/

/-- Descriptors of a pipe and of a file. -/
def pair (fd : Int) : Option Descriptor :=
  if fd = 3 then some ⟨.others, 30⟩ else if fd = 4 then some ⟨.others, 40⟩ else none

end Libprocess.Io
