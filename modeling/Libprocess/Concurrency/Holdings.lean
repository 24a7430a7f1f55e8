import Mathlib.Data.List.Nodup
import Mathlib.Logic.Function.Basic

/-!
# Tables whose entries have owners

Several parties enter things in one table, each under a key that is free at the time.  What a party
holds is kept as a list of keys, whatever the others do with theirs.
-/

namespace Concurrency

universe u v w

variable {Key : Type u} {Entry : Type v} {Owner : Type w} {owner : Entry → Owner} {party : Owner}
  {table : Key → Option Entry} {held : List Key} {key : Key} {entry : Entry}

/-- The entries of a party are those under the keys that it holds. -/
structure Holds (owner : Entry → Owner) (party : Owner) (table : Key → Option Entry)
    (held : List Key) : Prop where
  owned : ∀ key, (∃ entry, table key = some entry ∧ owner entry = party) ↔ key ∈ held
  nodup : held.Nodup

namespace Holds

/-- Nothing is held in a table of others. -/
theorem nil (others : ∀ key entry, table key = some entry → owner entry ≠ party) :
    Holds owner party table [] where
  owned key := by
    constructor
    · rintro ⟨entry, stored, own⟩
      exact absurd own (others key entry stored)
    · exact fun member => absurd member List.not_mem_nil
  nodup := List.nodup_nil

variable (holds : Holds owner party table held)
include holds

theorem perm {other : List Key} (perm : other.Perm held) : Holds owner party table other where
  owned key := (holds.owned key).trans perm.mem_iff.symm
  nodup := perm.nodup_iff.mpr holds.nodup

theorem not_mem_of_none (free : table key = none) : key ∉ held := by
  intro member
  obtain ⟨entry, stored, _⟩ := (holds.owned key).mpr member
  cases free.symm.trans stored

theorem not_mem_of_other (stored : table key = some entry) (other : owner entry ≠ party) :
    key ∉ held := by
  intro member
  obtain ⟨found, same, own⟩ := (holds.owned key).mpr member
  cases stored.symm.trans same
  exact other own

variable [DecidableEq Key]

/-- The party enters something under a free key. -/
theorem insert (free : table key = none) (own : owner entry = party) :
    Holds owner party (Function.update table key (some entry)) (key :: held) where
  owned other := by
    by_cases same : other = key
    · subst same
      simp [own]
    · simp [same, holds.owned other]
  nodup := List.nodup_cons.mpr ⟨holds.not_mem_of_none free, holds.nodup⟩

/-- The party takes out what it holds. -/
theorem erase (key : Key) :
    Holds owner party (Function.update table key none) (held.erase key) where
  owned other := by
    rw [holds.nodup.mem_erase_iff]
    by_cases same : other = key
    · subst same
      simp
    · simp [same, holds.owned other]
  nodup := holds.nodup.erase key

/-- Others enter something, or take it out. -/
theorem other {stored : Option Entry} (absent : key ∉ held)
    (others : ∀ entry, stored = some entry → owner entry ≠ party) :
    Holds owner party (Function.update table key stored) held where
  owned other := by
    by_cases same : other = key
    · subst same
      simp only [Function.update_self, absent, iff_false, not_exists, not_and]
      exact others
    · simp [same, holds.owned other]
  nodup := holds.nodup

end Holds

end Concurrency
