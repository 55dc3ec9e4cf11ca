import DistribKV.Consensus.Commitment
import Mathlib.Data.Nat.Find

/-!
# Settled logs

A log is *settled* when it is the beginning of a committed part of some book.  Settled
logs are comparable, so there is one settled log that only grows.  A replica may take
over a settled log from anyone, in whatever term, and loses nothing that it is bound
to.

Acknowledgements need not be recorded one by one: at any time a replica can be taken to
acknowledge everything it shares with the book of the term it has promised.
-/

namespace Consensus

universe u v

namespace Register

variable {ι : Type u} {ε : Type v}
variable {population : Finset ι} {termOf : ε → Nat} {R S : Register ι ε}
variable {t bound later : Nat} {part log other : List ε}

/-! ## Settled logs -/

/-- The log is the beginning of a part that is committed in a term up to `bound`. -/
def SettledBy (termOf : ε → Nat) (population : Finset ι) (R : Register ι ε) (bound : Nat)
    (log : List ε) : Prop :=
  log = [] ∨ ∃ t part, Committed termOf population R t part ∧ t ≤ bound ∧ log <+: part

/-- The log is the beginning of a committed part. -/
def Settled (termOf : ε → Nat) (population : Finset ι) (R : Register ι ε) (log : List ε) :
    Prop :=
  ∃ bound, SettledBy termOf population R bound log

namespace SettledBy

theorem nil : SettledBy termOf population R bound [] := .inl rfl

theorem of_isPrefix (settled : SettledBy termOf population R bound log)
    (isPrefix : other <+: log) : SettledBy termOf population R bound other := by
  rcases settled with rfl | ⟨t, part, committed, le, held⟩
  · exact .inl (List.prefix_nil.mp isPrefix)
  · exact .inr ⟨t, part, committed, le, isPrefix.trans held⟩

theorem mono (settled : SettledBy termOf population R bound log) (le : bound ≤ later) :
    SettledBy termOf population R later log := by
  rcases settled with rfl | ⟨t, part, committed, early, held⟩
  · exact .nil
  · exact .inr ⟨t, part, committed, early.trans le, held⟩

/-- What is settled stays settled. -/
theorem evolve (settled : SettledBy termOf population R bound log) (evolution : Evolves R S) :
    SettledBy termOf population S bound log := by
  rcases settled with rfl | ⟨t, part, committed, le, held⟩
  · exact .nil
  · exact .inr ⟨t, part, evolution.committed committed, le, held⟩

/-- A log settled up to a led term is in the book of that term. -/
theorem inBook (settled : SettledBy termOf population R bound log)
    (safe : Safe termOf population R) (le : bound ≤ later) (led : (R.leader later).isSome) :
    log <+: R.book later := by
  rcases settled with rfl | ⟨t, part, committed, early, held⟩
  · exact List.nil_prefix
  rcases Nat.eq_or_lt_of_le (early.trans le) with rfl | lt
  · exact held.trans committed.1.2.1
  · exact held.trans (safe.committed_book committed lt led)

/-- It holds entries of terms up to the bound only. -/
theorem term_le (settled : SettledBy termOf population R bound log)
    (safe : Safe termOf population R) {entry : ε} (member : entry ∈ log) :
    termOf entry ≤ bound := by
  rcases settled with rfl | ⟨t, part, committed, early, held⟩
  · cases member
  · exact (safe.bounded t entry (committed.1.2.1.subset (held.subset member))).trans early

end SettledBy

namespace Settled

theorem nil : Settled termOf population R [] := ⟨0, .nil⟩

theorem of_isPrefix (settled : Settled termOf population R log) (isPrefix : other <+: log) :
    Settled termOf population R other := by
  obtain ⟨bound, settled⟩ := settled
  exact ⟨bound, settled.of_isPrefix isPrefix⟩

theorem evolve (settled : Settled termOf population R log) (evolution : Evolves R S) :
    Settled termOf population S log := by
  obtain ⟨bound, settled⟩ := settled
  exact ⟨bound, settled.evolve evolution⟩

/-- A settled log is in a book, unless it is empty. -/
theorem mem_book (settled : Settled termOf population R log) {entry : ε}
    (member : entry ∈ log) : ∃ t, (R.leader t).isSome ∧ log <+: R.book t := by
  obtain ⟨-, rfl | ⟨t, part, committed, -, held⟩⟩ := settled
  · cases member
  · exact ⟨t, committed.1.1, held.trans committed.1.2.1⟩

/-- There is one settled log. -/
theorem comparable (settled : Settled termOf population R log)
    (settled' : Settled termOf population R other) (safe : Safe termOf population R) :
    log <+: other ∨ other <+: log := by
  obtain ⟨-, rfl | ⟨t, part, committed, -, held⟩⟩ := settled
  · exact .inl List.nil_prefix
  obtain ⟨-, rfl | ⟨t', part', committed', -, held'⟩⟩ := settled'
  · exact .inr List.nil_prefix
  rcases safe.committed_comparable committed committed' with left | right
  · exact List.prefix_or_prefix_of_prefix (held.trans left) held'
  · exact List.prefix_or_prefix_of_prefix held (held'.trans right)

/-- Of two settled logs, the shorter one is the beginning of the longer one. -/
theorem isPrefix (settled : Settled termOf population R log)
    (settled' : Settled termOf population R other) (safe : Safe termOf population R)
    (le : log.length ≤ other.length) : log <+: other := by
  rcases settled.comparable settled' safe with left | right
  · exact left
  · rw [right.eq_of_length (right.length_le.antisymm le)]

/-- A majority holds what is settled, and can fall back to it. -/
theorem exists_majority (settled : Settled termOf population R log)
    (safe : Safe termOf population R) (nonempty : log ≠ []) :
    ∃ quorum, Majority population quorum ∧
      ∀ q ∈ quorum, log <+: R.log q ∧ log <+: R.stable q := by
  obtain ⟨-, empty | ⟨t, part, committed, -, held⟩⟩ := settled
  · exact absurd empty nonempty
  obtain ⟨own, quorum, majority, acked⟩ := committed
  have alive : ¬ Dead population R t part.length :=
    Committed.not_dead ⟨own, quorum, majority, acked⟩
  refine ⟨quorum, majority, fun q member => ⟨?_, ?_⟩⟩
  · exact held.trans ((safe.logs q t part ⟨own, acked q member⟩).resolve_right alive)
  · exact held.trans ((safe.stables q t part ⟨own, acked q member⟩).resolve_right alive)

/-- Merging a settled log loses nothing of a book, except what is dead. -/
theorem part_merge [DecidableEq ε] {piece : List ε}
    (settled : Settled termOf population R piece) (safe : Safe termOf population R)
    (own : OwnPart termOf R t part)
    (held : part <+: log ∨ Dead population R t part.length) :
    part <+: merge log piece ∨ Dead population R t part.length := by
  obtain ⟨-, rfl | ⟨t', whole, committed, -, isPart⟩⟩ := settled
  · rwa [merge, if_pos List.nil_prefix]
  rcases held with inLog | dead
  case inr => exact .inr dead
  -- the later of the two books contains both, or the part is dead
  rcases Nat.lt_or_ge t' t with earlier | le
  · exact .inl (prefix_merge inLog own.2.1
      (isPart.trans (safe.committed_book committed earlier own.1)))
  · exact safe.part_merge own le committed.1.1 (isPart.trans committed.1.2.1) (.inl inLog)

end Settled

/-! ## Acknowledging everything -/

section Confirm

variable [DecidableEq ι] [DecidableEq ε] {q : ι}

/-- How far a log has the beginning of a book. -/
def shared (log book : List ε) : Nat :=
  Nat.findGreatest (fun n => book.take n <+: log) book.length

theorem take_shared (log book : List ε) : book.take (shared log book) <+: log :=
  Nat.findGreatest_spec (P := fun n => book.take n <+: log) (Nat.zero_le book.length)
    (by rw [List.take_zero]; exact List.nil_prefix)

theorem length_le_shared {book common : List ε} (inLog : common <+: log)
    (inBook : common <+: book) : common.length ≤ shared log book := by
  apply Nat.le_findGreatest inBook.length_le
  rwa [← List.prefix_iff_eq_take.mp inBook]

/-- The register after `q` has acknowledged all it shares with the book of `t`. -/
def confirm (R : Register ι ε) (q : ι) (t : Nat) : Register ι ε :=
  R.acked q t (shared (R.log q) (R.book t))

theorem evolves_confirm (promise : R.promise q = t) : Evolves R (R.confirm q t) :=
  evolves_acked promise.le _

theorem length_le_confirm_ack {common : List ε} (inLog : common <+: R.log q)
    (inBook : common <+: R.book t) : common.length ≤ (R.confirm q t).ack q t := by
  rw [confirm, acked_ack_self]
  exact (length_le_shared inLog inBook).trans (le_max_right _ _)

theorem Safe.confirm (safe : Safe termOf population R) (promise : R.promise q = t)
    (stable : R.stable q = R.log q) : Safe termOf population (R.confirm q t) := by
  refine safe.acknowledge promise.le (Nat.findGreatest_le _) (take_shared _ _)
    fun part own le => ⟨?_, promise.ge⟩
  rw [stable]
  exact (List.prefix_take_iff.mpr ⟨own.2.1, le⟩).trans (take_shared _ _)

end Confirm

end Register

end Consensus
