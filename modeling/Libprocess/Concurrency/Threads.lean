import Mathlib.Data.List.Perm.Basic

/-!
# Threads as stacks of activation frames

A thread is a stack of frames, the running one first.  One step of a thread
replaces its top frame by the frames it turns into: none when a call returns,
one when it continues, several when it calls code that runs before it.

Proofs about interleavings rarely depend on which thread holds a frame.  They
count frames over all stacks, and one permutation relates the frames before and
after a step.
-/

namespace Concurrency

/-- The call stacks of all threads. -/
abbrev Threads (Frame : Type) := List (List Frame)

namespace Threads

variable {Frame : Type}

/-- Every frame of every thread. -/
def frames (threads : Threads Frame) : List Frame := threads.flatten

/-- The running frame of one thread. -/
def top? (threads : Threads Frame) (index : Nat) : Option Frame :=
  (threads[index]?).bind List.head?

/-- Replace the running frame of one thread. -/
def resume (threads : Threads Frame) (index : Nat) (continuation : List Frame) :
    Threads Frame :=
  threads.modify index fun stack => continuation ++ stack.tail

/-- Start a new thread. -/
def spawn (threads : Threads Frame) (frame : Frame) : Threads Frame :=
  threads ++ [[frame]]

variable {threads : Threads Frame} {index : Nat} {frame : Frame} {continuation : List Frame}

@[simp] theorem frames_nil : frames ([] : Threads Frame) = [] := rfl

@[simp] theorem frames_spawn (threads : Threads Frame) (frame : Frame) :
    (threads.spawn frame).frames = threads.frames ++ [frame] := by
  simp [spawn, frames]

section

variable (running : threads.top? index = some frame)

include running

/-- A step of one thread exchanges its running frame for the continuation and
leaves every other frame where it was. -/
theorem frames_resume_perm (continuation : List Frame) :
    (frame :: (threads.resume index continuation).frames).Perm
      (continuation ++ threads.frames) := by
  induction threads generalizing index with
  | nil => simp [top?] at running
  | cons stack rest ih =>
      cases index with
      | zero =>
          cases stack with
          | nil => simp [top?] at running
          | cons head tail =>
              simp only [top?, List.getElem?_cons_zero, Option.bind_some,
                List.head?_cons, Option.some.injEq] at running
              subst head
              simp only [resume, frames, List.modify_zero_cons, List.tail_cons,
                List.flatten_cons, List.append_assoc, List.cons_append]
              exact List.perm_middle.symm
      | succ index =>
          have tailRunning : top? rest index = some frame := by simpa [top?] using running
          have tailPerm := ih tailRunning
          simp only [resume, frames, List.modify_succ_cons, List.flatten_cons]
            at tailPerm ⊢
          calc
            (frame :: (stack ++ _)).Perm (stack ++ (frame :: _)) :=
              List.perm_middle.symm
            _ |>.Perm (stack ++ (continuation ++ rest.flatten)) :=
              tailPerm.append_left stack
            _ |>.Perm (continuation ++ (stack ++ rest.flatten)) := by
              simpa [List.append_assoc] using
                List.perm_append_comm.append_right rest.flatten

/-- The running frame of a thread, in its stack. -/
theorem exists_stack :
    ∃ below, threads[index]? = some (frame :: below) := by
  simp only [top?, Option.bind_eq_some_iff] at running
  obtain ⟨stack, present, head⟩ := running
  obtain ⟨below, rfl⟩ := List.head?_eq_some_iff.mp head
  exact ⟨below, present⟩

theorem top?_mem_frames : frame ∈ threads.frames := by
  obtain ⟨below, found⟩ := exists_stack running
  exact List.mem_flatten.mpr ⟨_, List.mem_of_getElem? found, List.mem_cons_self⟩

theorem mem_resume_of_mem {other : Frame}
    (member : other ∈ continuation) :
    other ∈ (threads.resume index continuation).frames := by
  obtain ⟨below, found⟩ := exists_stack running
  refine List.mem_flatten.mpr ⟨continuation ++ below, ?_, by simp [member]⟩
  refine List.mem_of_getElem? (i := index) ?_
  simp [resume, found]

end

theorem getElem?_resume {below : List Frame} (present : threads[index]? = some (frame :: below))
    (continuation : List Frame) :
    (threads.resume index continuation)[index]? = some (continuation ++ below) := by
  simp [resume, present]

theorem getElem?_resume_of_ne {other : Nat} (different : index ≠ other) (continuation : List Frame) :
    (threads.resume index continuation)[other]? = threads[other]? := by
  simp [resume, different]

/-- The stacks after a step are those from before, except for that of the thread that moved. -/
theorem of_mem_resume {below stack : List Frame}
    (present : threads[index]? = some (frame :: below))
    (member : stack ∈ threads.resume index continuation) :
    stack ∈ threads ∨ stack = continuation ++ below := by
  obtain ⟨position, found⟩ := List.mem_iff_getElem?.mp member
  by_cases same : index = position
  · rw [← same, getElem?_resume present continuation] at found
    exact .inr (Option.some.inj found).symm
  · rw [getElem?_resume_of_ne same continuation] at found
    exact .inl (List.mem_of_getElem? found)

/-- A frame of the stack that moved is one of the continuation, or stood below the frame that
ran. -/
theorem split_resume {below stack above under : List Frame} {other : Frame}
    (present : threads[index]? = some (frame :: below))
    (member : stack ∈ threads.resume index continuation) (split : stack = above ++ other :: under) :
    stack ∈ threads ∨
      (∃ between, below = between ++ other :: under ∧ above = continuation ++ between) ∨
      ∃ between, continuation = above ++ other :: between ∧ under = between ++ below := by
  refine (of_mem_resume present member).imp id fun same => ?_
  rw [same] at split
  rcases List.append_eq_append_iff.mp split with ⟨between, rfl, rest⟩ | ⟨between, rfl, rest⟩
  · exact .inl ⟨between, rest, rfl⟩
  · cases between with
    | nil => exact .inl ⟨[], rest.symm, by simp⟩
    | cons first between =>
        obtain ⟨rfl, rfl⟩ := List.cons.inj rest
        exact .inr ⟨between, rfl, rfl⟩

theorem top?_resume (running : threads.top? index = some frame) (first : Frame)
    (rest : List Frame) : (threads.resume index (first :: rest)).top? index = some first := by
  obtain ⟨below, found⟩ := exists_stack running
  simp [top?, resume, found]

/-- A stack of a thread that was started has one frame. -/
theorem split_spawn {stack above below : List Frame} {other : Frame}
    (member : stack ∈ threads.spawn frame) (split : stack = above ++ other :: below) :
    stack ∈ threads ∨ above = [] ∧ other = frame ∧ below = [] := by
  refine (List.mem_append.mp member).imp id fun started => ?_
  rw [List.mem_singleton.mp started] at split
  obtain ⟨rfl, single⟩ := List.append_eq_singleton_iff.mp split.symm |>.resolve_right (by simp)
  exact ⟨rfl, List.cons.inj single⟩

/-- If one frame at most is selected, one thread at most runs such a frame. -/
theorem top?_unique {selected : Frame → Bool}
    (atMost : threads.frames.countP selected ≤ 1) {first second : Nat} {one other : Frame}
    (runs : threads.top? first = some one) (chosen : selected one = true)
    (runsOther : threads.top? second = some other) (chosenOther : selected other = true) :
    first = second := by
  induction threads generalizing first second with
  | nil => simp [top?] at runs
  | cons stack rest ih =>
      have occupied : ∀ {index : Nat} {frame : Frame}, top? rest index = some frame →
          selected frame = true → 0 < (frames rest).countP selected :=
        fun running chosen =>
          List.countP_pos_iff.mpr ⟨_, top?_mem_frames running, chosen⟩
      have headed : ∀ {frame : Frame}, stack.head? = some frame →
          selected frame = true → 0 < stack.countP selected :=
        fun head chosen =>
          List.countP_pos_iff.mpr ⟨_, List.mem_of_mem_head? head, chosen⟩
      have total : frames (stack :: rest) = stack ++ frames rest := rfl
      rw [total, List.countP_append] at atMost
      cases first with
      | zero =>
          have head : stack.head? = some one := by simpa [top?] using runs
          have positive := headed head chosen
          cases second with
          | zero => rfl
          | succ second =>
              have tail : top? rest second = some other := by simpa [top?] using runsOther
              have positiveRest := occupied tail chosenOther
              omega
      | succ first =>
          have tail : top? rest first = some one := by simpa [top?] using runs
          have positiveRest := occupied tail chosen
          cases second with
          | zero =>
              have head : stack.head? = some other := by simpa [top?] using runsOther
              have positive := headed head chosenOther
              omega
          | succ second =>
              have tailOther : top? rest second = some other := by
                simpa [top?] using runsOther
              exact congrArg Nat.succ (ih (by omega) tail tailOther)

/-- In every stack, a frame that is followed by another one has it directly below. -/
def Followed (follower : Frame → Option Frame) (threads : Threads Frame) : Prop :=
  ∀ stack ∈ threads, ∀ above frame below, stack = above ++ frame :: below →
    ∀ next, follower frame = some next → below.head? = some next

section Followed

variable {follower : Frame → Option Frame}

theorem Followed.spawn (followed : Followed follower threads)
    (alone : follower frame = none) : Followed follower (threads.spawn frame) := by
  intro stack member above other below split next follows
  rcases split_spawn member split with earlier | ⟨-, rfl, -⟩
  · exact followed stack earlier above other below split next follows
  · rw [alone] at follows
    cases follows

/-- A step keeps the order of the frames it leaves, so only its own frames are checked. -/
theorem Followed.resume (followed : Followed follower threads)
    (running : threads.top? index = some frame)
    (own : ∀ above other below, continuation = above ++ other :: below →
      ∀ next, follower other = some next → below.head? = some next) :
    Followed follower (threads.resume index continuation) := by
  obtain ⟨tail, present⟩ := exists_stack running
  intro stack member above other below split next follows
  rcases split_resume present member split with
    old | ⟨between, rfl, -⟩ | ⟨between, rfl, rfl⟩
  · exact followed stack old above other below split next follows
  · exact followed _ (List.mem_of_getElem? present) (frame :: between) other below rfl next follows
  · rw [List.head?_append, own above other between rfl next follows]
    rfl

theorem Followed.mem_frames (followed : Followed follower threads) {next : Frame}
    (running : threads.top? index = some frame) (follows : follower frame = some next) :
    next ∈ threads.frames := by
  obtain ⟨below, found⟩ := exists_stack running
  have member := List.mem_of_getElem? found
  have directly := followed _ member [] frame below rfl next follows
  exact List.mem_flatten.mpr ⟨_, member, List.mem_cons_of_mem _ (List.mem_of_mem_head? directly)⟩

end Followed

/-- Every frame fits the frames directly above and directly below it. -/
def Arranged (fits : Option Frame → Frame → Option Frame → Prop) (threads : Threads Frame) :
    Prop :=
  ∀ stack ∈ threads, ∀ above frame below, stack = above ++ frame :: below →
    fits above.getLast? frame below.head?

section Arranged

variable {fits next : Option Frame → Frame → Option Frame → Prop}

theorem Arranged.spawn (arranged : Arranged fits threads)
    (alone : fits none frame none) : Arranged fits (threads.spawn frame) := by
  intro stack member above other below split
  rcases split_spawn member split with earlier | ⟨rfl, rfl, rfl⟩
  · exact arranged stack earlier above other below split
  · exact alone

/-- Only the frames of the continuation and the frame below them get new neighbours. -/
theorem Arranged.resume (arranged : Arranged fits threads)
    (running : threads.top? index = some frame)
    (mono : ∀ above other below, fits above other below → next above other below)
    (own : ∀ above other below, continuation = above ++ other :: below →
      ∀ under, next above.getLast? other (below.head?.or under))
    (second : ∀ other below, fits (some frame) other below →
      next continuation.getLast? other below) :
    Arranged next (threads.resume index continuation) := by
  obtain ⟨tail, present⟩ := exists_stack running
  intro stack inside above other below split
  rcases split_resume present inside split with old | ⟨between, rfl, rfl⟩ | ⟨between, cut, rfl⟩
  · exact mono _ _ _ (arranged stack old above other below split)
  · -- The frames that stay keep the ones below them.
    have earlier := arranged _ (List.mem_of_getElem? present) (frame :: between) other below rfl
    cases between with
    | nil =>
        rw [List.append_nil]
        exact second other _ earlier
    | cons first rest =>
        apply mono
        rwa [List.getLast?_append_of_ne_nil _ (by simp)]
  · rw [List.head?_append]
    exact own above other between cut _

end Arranged

/-- Every frame allows the frames above it. -/
def Covered (allows : List Frame → Frame → Prop) (threads : Threads Frame) : Prop :=
  ∀ stack ∈ threads, ∀ above frame below, stack = above ++ frame :: below → allows above frame

section Covered

variable {allows next : List Frame → Frame → Prop}

theorem Covered.spawn (covered : Covered allows threads)
    (alone : allows [] frame) : Covered allows (threads.spawn frame) := by
  intro stack member above other below split
  rcases split_spawn member split with earlier | ⟨rfl, rfl, -⟩
  · exact covered stack earlier above other below split
  · exact alone

/-- The continuation stands above the frames that the running frame stood above. -/
theorem Covered.resume (covered : Covered allows threads)
    (running : threads.top? index = some frame)
    (mono : ∀ above other, allows above other → next above other)
    (own : allows [] frame → ∀ above other below, continuation = above ++ other :: below →
      next above other)
    (under : ∀ between other, allows (frame :: between) other →
      next (continuation ++ between) other) :
    Covered next (threads.resume index continuation) := by
  obtain ⟨tail, present⟩ := exists_stack running
  have member := List.mem_of_getElem? present
  intro stack inside above other below split
  rcases split_resume present inside split with old | ⟨between, rfl, rfl⟩ | ⟨between, cut, -⟩
  · exact mono _ _ (covered stack old above other below split)
  · exact under _ _ (covered _ member (frame :: between) other below rfl)
  · exact own (covered _ member [] frame tail rfl) above other between cut

end Covered

end Threads

/-- `frame` is exchanged for `continuation` in a collection of frames. -/
structure Exchange {Frame : Type} (frame : Frame) (continuation before after : List Frame) :
    Prop where
  member : frame ∈ before
  perm : (frame :: after).Perm (continuation ++ before)
  entered : ∀ other ∈ continuation, other ∈ after

theorem Threads.exchange {Frame : Type} {threads : Threads Frame} {index : Nat}
    {frame : Frame} (running : threads.top? index = some frame)
    (continuation : List Frame) :
    Exchange frame continuation threads.frames
      (threads.resume index continuation).frames :=
  ⟨Threads.top?_mem_frames running, Threads.frames_resume_perm running continuation,
    fun _ => Threads.mem_resume_of_mem running⟩

namespace Exchange

variable {Frame : Type} {frame other : Frame} {continuation before after : List Frame}

section

variable (exchange : Exchange frame continuation before after)

include exchange

/-- The frames that take no part in the exchange. -/
theorem split :
    ∃ rest, before.Perm (frame :: rest) ∧ after.Perm (continuation ++ rest) := by
  obtain ⟨left, right, cut⟩ := List.append_of_mem exchange.member
  have around : before.Perm (frame :: (left ++ right)) := by
    rw [cut]
    exact List.perm_middle
  refine ⟨left ++ right, around, (List.perm_cons frame).mp ?_⟩
  calc
    (frame :: after).Perm (continuation ++ before) := exchange.perm
    _ |>.Perm (continuation ++ frame :: (left ++ right)) := around.append_left continuation
    _ |>.Perm (frame :: (continuation ++ (left ++ right))) := List.perm_middle

/-- Frame counting across one step. -/
theorem countP (selected : Frame → Bool) :
    after.countP selected + (if selected frame then 1 else 0) =
      continuation.countP selected + before.countP selected := by
  simpa [List.countP_cons] using exchange.perm.countP_eq selected

/-- A frame of the new stacks is an old frame or comes from the continuation. -/
theorem source (member : other ∈ after) : other ∈ continuation ∨ other ∈ before :=
  List.mem_append.mp (exchange.perm.mem_iff.mp (List.mem_cons_of_mem frame member))

/-- A frame other than the running one survives the step. -/
theorem kept (member : other ∈ before) (different : other ≠ frame) : other ∈ after :=
  (List.mem_cons.mp (exchange.perm.mem_iff.mpr
    (List.mem_append_right continuation member))).resolve_left different

end

/-- An exchange seen through a partial view of the frames. -/
theorem filterMap {Seen : Type} {seen : Seen}
    (exchange : Exchange frame continuation before after) (view : Frame → Option Seen)
    (visible : view frame = some seen) :
    Exchange seen (continuation.filterMap view) (before.filterMap view)
      (after.filterMap view) where
  member := List.mem_filterMap.mpr ⟨frame, exchange.member, visible⟩
  perm := by
    have perm := exchange.perm.filterMap view
    rw [List.filterMap_append, List.filterMap_cons_some visible] at perm
    exact perm
  entered := by
    intro other entered
    obtain ⟨source, member, seen⟩ := List.mem_filterMap.mp entered
    exact List.mem_filterMap.mpr ⟨source, exchange.entered source member, seen⟩

/-- A frame that a view does not show is exchanged without a trace. -/
theorem filterMap_of_none {Seen : Type}
    (exchange : Exchange frame continuation before after) (view : Frame → Option Seen)
    (hidden : view frame = none) :
    (after.filterMap view).Perm (continuation.filterMap view ++ before.filterMap view) := by
  have perm := exchange.perm.filterMap view
  rw [List.filterMap_append, List.filterMap_cons_none hidden] at perm
  exact perm

end Exchange

end Concurrency
