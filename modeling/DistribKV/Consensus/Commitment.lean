import DistribKV.Consensus.Ledger
import DistribKV.Consensus.Majority
import Mathlib.Order.Lattice

/-!
# Commitment by majorities

Replicas *promise* not to take part in old terms, *acknowledge* a part of a
book, and cast *ballots* for logs at least as up to date as their own.  A part
of a book is *dead* when a majority has promised a later term without having
acknowledged it, and will therefore never acknowledge it.

The invariant says that a part of an earlier book is contained in every later
book, and in the log of everyone who acknowledged it, unless it is dead.  A part
that a majority has acknowledged is not dead, so later leaders hold it.  Stated
this way the invariant is preserved by single steps, whatever the order in which
acknowledgements and elections of different terms interleave.
-/

namespace Consensus

universe u v

/-- Position of the end of a log: term of the last entry, and length. -/
def endOf {ε : Type v} (termOf : ε → Nat) (log : List ε) : Nat × Nat :=
  ((log.getLast?.map termOf).getD 0, log.length)

/-- The order in which logs are compared in an election. -/
def UpTo (low high : Nat × Nat) : Prop :=
  low.1 < high.1 ∨ low.1 = high.1 ∧ low.2 ≤ high.2

instance (low high : Nat × Nat) : Decidable (UpTo low high) :=
  inferInstanceAs (Decidable (_ ∨ _))

theorem UpTo.trans {a b c : Nat × Nat} (first : UpTo a b) (second : UpTo b c) :
    UpTo a c := by
  unfold UpTo at *
  omega

/-- A rooted log that contains a part ends at or after the end of that part,
when no book holds an entry of a later term. -/
theorem Ledger.Rooted.upTo_endOf {ι : Type u} {ε : Type v} {termOf : ε → Nat}
    {g : Ledger ι ε} {log before : List ε} {entry : ε} (rooted : g.Rooted termOf log)
    (bounded : ∀ t, ∀ entry ∈ g.book t, termOf entry ≤ t)
    (held : before ++ [entry] <+: log) :
    UpTo (termOf entry, (before ++ [entry]).length) (endOf termOf log) := by
  obtain ⟨init, last, rfl⟩ : ∃ init last, log = init ++ [last] := by
    rcases List.eq_nil_or_concat' log with rfl | ⟨init, last, rfl⟩
    · simp at held
    · exact ⟨init, last, rfl⟩
  have inBook := (rooted init last (List.prefix_refl _)).2
  have termLe := bounded _ entry (inBook.subset (held.subset (by simp)))
  have lengthLe := held.length_le
  simp only [UpTo, endOf, List.getLast?_append_cons, List.getLast?_singleton,
    Option.map_some, Option.getD_some]
  omega

/-- A vote given to a candidate that claims a log ending at `claimed`. -/
structure Ballot (ι : Type u) where
  voter : ι
  term : Nat
  claimed : Nat × Nat

/-- Everything the argument is about: the ledger, and for every replica its
promise, its acknowledgements, its log, and the log it restarts with. -/
structure Register (ι : Type u) (ε : Type v) extends Ledger ι ε where
  promise : ι → Nat
  ack : ι → Nat → Nat
  log : ι → List ε
  stable : ι → List ε
  ballots : Ballot ι → Prop

namespace Register

variable {ι : Type u} {ε : Type v}
variable {population : Finset ι} {termOf : ε → Nat} {R S : Register ι ε}
variable {t later n : Nat} {part log : List ε}

/-- A part of the book of `t` that ends in an entry created in `t`. -/
def OwnPart (termOf : ε → Nat) (R : Register ι ε) (t : Nat) (part : List ε) : Prop :=
  (R.leader t).isSome ∧ part <+: R.book t ∧
    ∃ before entry, part = before ++ [entry] ∧ termOf entry = t

/-- A majority can no longer acknowledge `n` entries in term `t`. -/
def Dead (population : Finset ι) (R : Register ι ε) (t n : Nat) : Prop :=
  ∃ part, Majority population part ∧ ∀ q ∈ part, t < R.promise q ∧ R.ack q t < n

/-- A majority has acknowledged a part of the book of `t` that ends in an entry
of `t`. -/
def Committed (termOf : ε → Nat) (population : Finset ι) (R : Register ι ε)
    (t : Nat) (part : List ε) : Prop :=
  OwnPart termOf R t part ∧
    ∃ quorum, Majority population quorum ∧ ∀ q ∈ quorum, part.length ≤ R.ack q t

theorem Committed.not_dead (committed : Committed termOf population R t part) :
    ¬ Dead population R t part.length := by
  rintro ⟨silent, silentMajority, silence⟩
  obtain ⟨-, quorum, quorumMajority, acked⟩ := committed
  obtain ⟨q, inSilent, inQuorum⟩ := silentMajority.exists_mem_inter quorumMajority
  have acknowledged := acked q inQuorum
  have unacknowledged := (silence q inSilent).2
  omega

/-! ## Evolution -/

/-- What every step guarantees: ledgers extend, promises and acknowledgements
only grow, and nobody acknowledges in a term below its promise. -/
structure Evolves (R S : Register ι ε) : Prop where
  ledger : Ledger.Extends R.toLedger S.toLedger
  promise : ∀ q, R.promise q ≤ S.promise q
  ack : ∀ q t, R.ack q t ≤ S.ack q t
  frozen : ∀ q t, t < R.promise q → S.ack q t = R.ack q t

namespace Evolves

theorem refl (R : Register ι ε) : Evolves R R where
  ledger := .refl _
  promise _ := Nat.le_refl _
  ack _ _ := Nat.le_refl _
  frozen _ _ _ := rfl

theorem trans {T : Register ι ε} (first : Evolves R S) (second : Evolves S T) :
    Evolves R T where
  ledger := first.ledger.trans second.ledger
  promise q := (first.promise q).trans (second.promise q)
  ack q t := (first.ack q t).trans (second.ack q t)
  frozen q t below := by
    rw [second.frozen q t (below.trans_le (first.promise q)), first.frozen q t below]

theorem dead (evolution : Evolves R S) (dead : Dead population R t n) :
    Dead population S t n := by
  obtain ⟨part, majority, silence⟩ := dead
  refine ⟨part, majority, ?_⟩
  intro q member
  obtain ⟨promised, silent⟩ := silence q member
  refine ⟨promised.trans_le (evolution.promise q), ?_⟩
  rw [evolution.frozen q t promised]
  exact silent

theorem ownPart (evolution : Evolves R S) (own : OwnPart termOf R t part) :
    OwnPart termOf S t part :=
  ⟨evolution.ledger.led own.1, own.2.1.trans (evolution.ledger.book t own.1), own.2.2⟩

theorem committed (evolution : Evolves R S)
    (committed : Committed termOf population R t part) :
    Committed termOf population S t part := by
  obtain ⟨own, quorum, majority, acked⟩ := committed
  exact ⟨evolution.ownPart own, quorum, majority,
    fun q member => (acked q member).trans (evolution.ack q t)⟩

end Evolves

/-- The register after `q` has acknowledged the first `n` entries of `t`. -/
def acked [DecidableEq ι] (R : Register ι ε) (q : ι) (t n : Nat) : Register ι ε :=
  { R with
    ack := Function.update R.ack q (Function.update (R.ack q) t (max (R.ack q t) n)) }

@[simp] theorem acked_ack_self [DecidableEq ι] (R : Register ι ε) (q : ι) (t n : Nat) :
    (R.acked q t n).ack q t = max (R.ack q t) n := by simp [acked]

theorem acked_ack_of_ne [DecidableEq ι] (R : Register ι ε) {q p : ι} {t t' : Nat}
    (n : Nat) (ne : ¬(p = q ∧ t' = t)) : (R.acked q t n).ack p t' = R.ack p t' := by
  by_cases same : p = q
  · subst same
    have other : t' ≠ t := fun equal => ne ⟨rfl, equal⟩
    simp [acked, other]
  · simp [acked, same]

theorem evolves_acked [DecidableEq ι] {q : ι} (promise : R.promise q ≤ t) (n : Nat) :
    Evolves R (R.acked q t n) where
  ledger := .refl _
  promise _ := Nat.le_refl _
  ack p t' := by
    by_cases here : p = q ∧ t' = t
    · obtain ⟨rfl, rfl⟩ := here
      rw [acked_ack_self]
      exact le_max_left _ _
    · rw [acked_ack_of_ne R n here]
  frozen p t' below := by
    apply acked_ack_of_ne
    rintro ⟨rfl, rfl⟩
    omega

theorem evolves_write (R : Register ι ε) (t : Nat) (entry : ε) :
    Evolves R { R with toLedger := R.toLedger.write t entry } where
  ledger := Ledger.extends_write t entry
  promise _ := Nat.le_refl _
  ack _ _ := Nat.le_refl _
  frozen _ _ _ := rfl

theorem evolves_elect {i : ι} (vacant : R.leader t = none) (log : List ε) :
    Evolves R { R with toLedger := R.toLedger.elect t i log } where
  ledger := Ledger.extends_elect i log vacant
  promise _ := Nat.le_refl _
  ack _ _ := Nat.le_refl _
  frozen _ _ _ := rfl

/-! ## The invariant -/

/-- The replica `q` has acknowledged a part that must not be lost. -/
def Binding (termOf : ε → Nat) (R : Register ι ε) (q : ι) (t : Nat)
    (part : List ε) : Prop :=
  OwnPart termOf R t part ∧ part.length ≤ R.ack q t

/-- The commitment invariant. -/
structure Safe (termOf : ε → Nat) (population : Finset ι) (R : Register ι ε) : Prop where
  sound : Ledger.Sound termOf R.toLedger
  /-- No book holds an entry of a later term. -/
  bounded : ∀ t, ∀ entry ∈ R.book t, termOf entry ≤ t
  /-- Nobody acknowledges more than the book holds. -/
  ack_le : ∀ q t, R.ack q t ≤ (R.book t).length
  /-- A led term has been promised by a majority. -/
  elected : ∀ t, (R.leader t).isSome →
    ∃ quorum, Majority population quorum ∧ ∀ q ∈ quorum, t ≤ R.promise q
  books : ∀ t later part, t < later → (R.leader later).isSome →
    OwnPart termOf R t part → part <+: R.book later ∨ Dead population R t part.length
  logs : ∀ q t part, Binding termOf R q t part →
    part <+: R.log q ∨ Dead population R t part.length
  stables : ∀ q t part, Binding termOf R q t part →
    part <+: R.stable q ∨ Dead population R t part.length
  promised : ∀ q t part, Binding termOf R q t part → t ≤ R.promise q
  /-- A ballot is a promise, and its candidate claims everything the voter is
  bound to. -/
  ballots : ∀ ballot, R.ballots ballot → ballot.term ≤ R.promise ballot.voter ∧
    ∀ t part, t < ballot.term → Binding termOf R ballot.voter t part →
      UpTo (t, part.length) ballot.claimed ∨ Dead population R t part.length

/-! ### Consequences -/

namespace Safe

variable (safe : Safe termOf population R)
include safe

/-- Leader completeness: a committed part is in the book of every later term. -/
theorem committed_book (committed : Committed termOf population R t part)
    (lt : t < later) (led : (R.leader later).isSome) : part <+: R.book later := by
  rcases safe.books t later part lt led committed.1 with held | dead
  · exact held
  · exact absurd dead committed.not_dead

/-- Two committed parts are comparable. -/
theorem committed_comparable {part' : List ε} {t' : Nat}
    (first : Committed termOf population R t part)
    (second : Committed termOf population R t' part') :
    part <+: part' ∨ part' <+: part := by
  rcases Nat.lt_trichotomy t t' with lt | rfl | gt
  · exact List.prefix_or_prefix_of_prefix
      (safe.committed_book first lt second.1.1) second.1.2.1
  · exact List.prefix_or_prefix_of_prefix first.1.2.1 second.1.2.1
  · exact List.prefix_or_prefix_of_prefix first.1.2.1
      (safe.committed_book second gt first.1.1)

/-- A rooted log that ends at or after an own part of an earlier term contains
that part, unless the part is dead. -/
theorem contains_of_upTo (own : OwnPart termOf R t part)
    (rooted : R.Rooted termOf log)
    (ends : UpTo (t, part.length) (endOf termOf log)) :
    part <+: log ∨ Dead population R t part.length := by
  obtain ⟨led, inBook, before, entry, rfl, ownTerm⟩ := own
  rcases List.eq_nil_or_concat' log with rfl | ⟨init, last, rfl⟩
  · simp [UpTo, endOf] at ends
  simp only [UpTo, endOf, List.getLast?_append_cons, List.getLast?_singleton,
    Option.map_some, Option.getD_some] at ends
  obtain ⟨lastLed, inLastBook⟩ := rooted init last (List.prefix_refl _)
  rcases ends with lt | ⟨same, short⟩
  · -- the log was written in a later term, whose leader held the part or it is dead
    rcases safe.books t _ _ lt lastLed ⟨led, inBook, before, entry, rfl, ownTerm⟩ with
      held | dead
    · left
      rcases Nat.le_total (before ++ [entry]).length (init ++ [last]).length with le | ge
      · exact List.prefix_of_prefix_length_le held inLastBook le
      · -- otherwise the last entry of the log, of a later term, lies inside the part
        have inside := List.prefix_of_prefix_length_le inLastBook held ge
        have bounded := safe.bounded t last (inBook.subset (inside.subset (by simp)))
        omega
    · exact .inr dead
  · left
    rw [← same] at inLastBook
    exact List.prefix_of_prefix_length_le inBook inLastBook short

/-- Merging a part of the book of `later` loses nothing of an earlier book,
except what is dead. -/
theorem part_merge [DecidableEq ε] {piece : List ε} (own : OwnPart termOf R t part)
    (le : t ≤ later) (led : (R.leader later).isSome) (isPart : piece <+: R.book later)
    (held : part <+: log ∨ Dead population R t part.length) :
    part <+: merge log piece ∨ Dead population R t part.length := by
  rcases held with inLog | dead
  · have inBook : part <+: R.book later ∨ Dead population R t part.length := by
      rcases Nat.eq_or_lt_of_le le with rfl | lt
      · exact .inl own.2.1
      · exact safe.books t later part lt led own
    exact inBook.imp_left fun inBook => prefix_merge inLog inBook isPart
  · exact .inr dead

/-- What a leader writes after a later term has begun is dead. -/
theorem dead_of_new (evolution : Evolves R S) (own : OwnPart termOf S t part)
    (new : ¬ OwnPart termOf R t part) (lt : t < later) (led : (R.leader later).isSome) :
    Dead population S t part.length := by
  obtain ⟨quorum, majority, promised⟩ := safe.elected later led
  refine ⟨quorum, majority, fun q member => ?_⟩
  have passed : t < R.promise q := lt.trans_le (promised q member)
  refine ⟨passed.trans_le (evolution.promise q), ?_⟩
  rw [evolution.frozen q t passed]
  refine (safe.ack_le q t).trans_lt ?_
  -- the part is longer than the book was
  by_contra short
  rcases Option.eq_none_or_eq_some (R.leader t) with vacant | ⟨i, leader⟩
  · obtain ⟨-, -, before, entry, rfl, -⟩ := own
    rw [safe.sound.unled t vacant] at short
    simp at short
  · have ledNow : (R.leader t).isSome := by rw [leader]; rfl
    exact new ⟨ledNow, List.prefix_of_prefix_length_le own.2.1
      (evolution.ledger.book t ledNow) (Nat.not_lt.mp short), own.2.2⟩

end Safe

/-! ### Logs of former leaders -/

/-- Whoever has led a term holds, from then on, everything of earlier books that
is not dead.  This needs replicas that never fall back to an older log, so it is
not part of `Safe`. -/
def Kept (termOf : ε → Nat) (population : Finset ι) (R : Register ι ε) : Prop :=
  ∀ q t later part, R.leader later = some q → t < later → OwnPart termOf R t part →
    part <+: R.log q ∨ Dead population R t part.length

/-- Former leaders keep their logs when new leaders hold their book and nobody
loses what is not dead. -/
theorem Kept.evolve (safe : Safe termOf population R) (safe' : Safe termOf population S)
    (kept : Kept termOf population R) (evolution : Evolves R S)
    (logs : ∀ q t later part, R.leader later = some q → t < later →
      OwnPart termOf R t part → part <+: R.log q →
        part <+: S.log q ∨ Dead population S t part.length)
    (elected : ∀ q later, S.leader later = some q → R.leader later = none →
      S.book later <+: S.log q) : Kept termOf population S := by
  intro q t later part leader lt own
  rcases Option.eq_none_or_eq_some (R.leader later) with vacant | ⟨i, wasLeader⟩
  · have led : (S.leader later).isSome := by rw [leader]; rfl
    exact (safe'.books t later part lt led own).imp_left fun inBook =>
      inBook.trans (elected q later leader vacant)
  · have same : i = q := by
      have now := evolution.ledger.leader later i wasLeader
      rw [leader] at now
      exact (Option.some.inj now).symm
    subst same
    by_cases old : OwnPart termOf R t part
    · rcases kept i t later part wasLeader lt old with held | dead
      · exact logs i t later part wasLeader lt old held
      · exact .inr (evolution.dead dead)
    · exact .inr (safe.dead_of_new evolution own old lt (by rw [wasLeader]; rfl))

/-- Leader completeness across time: whoever leads a term holds everything that
is committed in an earlier term, then or at any later time. -/
theorem Kept.committed (safe : Safe termOf population R) (kept : Kept termOf population R)
    (evolution : Evolves R S) {q : ι} (leader : R.leader later = some q) (lt : t < later)
    (committed : Committed termOf population S t part) : part <+: R.log q := by
  by_cases own : OwnPart termOf R t part
  · rcases kept q t later part leader lt own with held | dead
    · exact held
    · exact absurd (evolution.dead dead) committed.not_dead
  · have dead := safe.dead_of_new evolution committed.1 own lt (by rw [leader]; rfl)
    exact absurd dead committed.not_dead

/-! ### Preservation -/

namespace Safe

/-- Steps that leave ledger and acknowledgements alone: raising promises,
storing, merging, restarting and voting. -/
theorem replace (safe : Safe termOf population R)
    (ledger : S.toLedger = R.toLedger) (ack : S.ack = R.ack)
    (promise : ∀ q, R.promise q ≤ S.promise q)
    (logs : ∀ q t part, Binding termOf R q t part →
      part <+: S.log q ∨ Dead population R t part.length)
    (stables : ∀ q t part, Binding termOf R q t part →
      part <+: S.stable q ∨ Dead population R t part.length)
    (ballots : ∀ ballot, S.ballots ballot → R.ballots ballot ∨
      ballot.term ≤ S.promise ballot.voter ∧ R.Rooted termOf (R.log ballot.voter) ∧
        UpTo (endOf termOf (R.log ballot.voter)) ballot.claimed) :
    Safe termOf population S := by
  have evolution : Evolves R S :=
    ⟨ledger ▸ .refl _, promise, fun _ _ => by rw [ack], fun _ _ _ => by rw [ack]⟩
  have own : ∀ {t part}, OwnPart termOf S t part → OwnPart termOf R t part := by
    intro t part held
    simpa only [OwnPart, ledger] using held
  have binding : ∀ {q t part}, Binding termOf S q t part → Binding termOf R q t part := by
    intro q t part held
    exact ⟨own held.1, by simpa only [ack] using held.2⟩
  refine
    { sound := ledger ▸ safe.sound
      bounded := by simpa only [ledger] using safe.bounded
      ack_le := by simpa only [ack, ledger] using safe.ack_le
      elected := ?_
      books := ?_
      logs := fun q t part held => (logs q t part (binding held)).imp_right evolution.dead
      stables := fun q t part held =>
        (stables q t part (binding held)).imp_right evolution.dead
      promised := fun q t part held =>
        (safe.promised q t part (binding held)).trans (promise q)
      ballots := ?_ }
  · intro t led
    rw [ledger] at led
    obtain ⟨quorum, majority, promised⟩ := safe.elected t led
    exact ⟨quorum, majority, fun q member => (promised q member).trans (promise q)⟩
  · intro t later part lt led held
    rw [ledger] at led ⊢
    exact (safe.books t later part lt led (own held)).imp_right evolution.dead
  · intro ballot cast
    rcases ballots ballot cast with old | ⟨promised, rooted, claims⟩
    · obtain ⟨promised, claims⟩ := safe.ballots ballot old
      exact ⟨promised.trans (promise _), fun t part lt held =>
        (claims t part lt (binding held)).imp_right evolution.dead⟩
    · refine ⟨promised, fun t part _ held => ?_⟩
      rcases safe.logs _ t part (binding held) with contained | dead
      · obtain ⟨-, -, before, entry, rfl, rfl⟩ := held.1
        exact .inl ((rooted.upTo_endOf safe.bounded contained).trans claims)
      · exact .inr (evolution.dead dead)

/-- A replica acknowledges the first `n` entries of the book of `t`. -/
theorem acknowledge [DecidableEq ι] (safe : Safe termOf population R) {q : ι}
    (promise : R.promise q ≤ t) (short : n ≤ (R.book t).length)
    (inLog : (R.book t).take n <+: R.log q)
    (inStable : ∀ part, OwnPart termOf R t part → part.length ≤ n →
      part <+: R.stable q ∧ t ≤ R.promise q) :
    Safe termOf population (R.acked q t n) := by
  have evolution := evolves_acked promise n
  -- a binding part is an old one, or one of the entries just acknowledged
  have binding : ∀ {p t' part}, Binding termOf (R.acked q t n) p t' part →
      Binding termOf R p t' part ∨
        p = q ∧ t' = t ∧ OwnPart termOf R t part ∧ part.length ≤ n := by
    intro p t' part held
    by_cases here : p = q ∧ t' = t
    · obtain ⟨rfl, rfl⟩ := here
      have bound : part.length ≤ max (R.ack p t') n := by simpa using held.2
      rcases le_max_iff.mp bound with old | new
      · exact .inl ⟨held.1, old⟩
      · exact .inr ⟨rfl, rfl, held.1, new⟩
    · refine .inl ⟨held.1, ?_⟩
      rw [← acked_ack_of_ne R n here]
      exact held.2
  refine
    { sound := safe.sound
      bounded := safe.bounded
      ack_le := ?_
      elected := safe.elected
      books := fun t later part lt led held =>
        (safe.books t later part lt led held).imp_right evolution.dead
      logs := ?_
      stables := ?_
      promised := ?_
      ballots := ?_ }
  · intro p t'
    by_cases here : p = q ∧ t' = t
    · obtain ⟨rfl, rfl⟩ := here
      rw [acked_ack_self]
      exact max_le (safe.ack_le p t') short
    · rw [acked_ack_of_ne R n here]
      exact safe.ack_le p t'
  · intro p t' part held
    rcases binding held with old | ⟨rfl, rfl, own, new⟩
    · exact (safe.logs p t' part old).imp_right evolution.dead
    · left
      have isTake : part <+: (R.book t').take n :=
        List.prefix_take_iff.mpr ⟨own.2.1, new⟩
      exact isTake.trans inLog
  · intro p t' part held
    rcases binding held with old | ⟨rfl, rfl, own, new⟩
    · exact (safe.stables p t' part old).imp_right evolution.dead
    · exact .inl (inStable part own new).1
  · intro p t' part held
    rcases binding held with old | ⟨rfl, rfl, own, new⟩
    · exact safe.promised p t' part old
    · exact (inStable part own new).2
  · intro ballot cast
    obtain ⟨promised, claims⟩ := safe.ballots ballot cast
    refine ⟨promised, fun t' part lt held => ?_⟩
    rcases binding held with old | ⟨rfl, rfl, -, -⟩
    · exact (claims t' part lt old).imp_right evolution.dead
    · exact absurd (promised.trans promise) (Nat.not_le.mpr lt)

/-- When only the ledger moves and nobody is bound to more, what is left to show
is about the ledger alone. -/
theorem extend (safe : Safe termOf population R) {L : Ledger ι ε}
    (evolution : Evolves R { R with toLedger := L })
    (binding : ∀ {q t part},
      Binding termOf { R with toLedger := L } q t part → Binding termOf R q t part)
    (sound : L.Sound termOf) (bounded : ∀ t, ∀ entry ∈ L.book t, termOf entry ≤ t)
    (ack_le : ∀ q t, R.ack q t ≤ (L.book t).length)
    (elected : ∀ t, (L.leader t).isSome →
      ∃ quorum, Majority population quorum ∧ ∀ q ∈ quorum, t ≤ R.promise q)
    (books : ∀ t later part, t < later → (L.leader later).isSome →
      OwnPart termOf { R with toLedger := L } t part →
        part <+: L.book later ∨ Dead population { R with toLedger := L } t part.length) :
    Safe termOf population { R with toLedger := L } where
  sound := sound
  bounded := bounded
  ack_le := ack_le
  elected := elected
  books := books
  logs q t part held := (safe.logs q t part (binding held)).imp_right evolution.dead
  stables q t part held := (safe.stables q t part (binding held)).imp_right evolution.dead
  promised q t part held := safe.promised q t part (binding held)
  ballots ballot cast := by
    obtain ⟨promised, claims⟩ := safe.ballots ballot cast
    exact ⟨promised, fun t part lt held =>
      (claims t part lt (binding held)).imp_right evolution.dead⟩

/-- A leader writes an entry of its own term into its book. -/
theorem write (safe : Safe termOf population R) {entry : ε}
    (led : (R.leader t).isSome) (ownTerm : termOf entry = t) :
    Safe termOf population { R with toLedger := R.toLedger.write t entry } := by
  have evolution := evolves_write R t entry
  -- an own part of the new ledger is an old one, or the whole new book
  have own : ∀ {t' part},
      OwnPart termOf { R with toLedger := R.toLedger.write t entry } t' part →
        OwnPart termOf R t' part ∨ t' = t ∧ part.length = (R.book t).length + 1 := by
    rintro t' part ⟨led', inBook, last⟩
    by_cases same : t' = t
    · subst same
      simp only [Ledger.write_book_self] at inBook
      rcases List.prefix_concat_iff.mp inBook with whole | inside
      · exact .inr ⟨rfl, by simp [whole]⟩
      · exact .inl ⟨led', inside, last⟩
    · simp only [Ledger.write_book_of_ne entry same] at inBook
      exact .inl ⟨led', inBook, last⟩
  have binding : ∀ {q t' part},
      Binding termOf { R with toLedger := R.toLedger.write t entry } q t' part →
        Binding termOf R q t' part := by
    intro q t' part held
    rcases own held.1 with old | ⟨rfl, long⟩
    · exact ⟨old, held.2⟩
    · have ackLe := safe.ack_le q t'
      have acked : part.length ≤ R.ack q t' := held.2
      omega
  refine safe.extend evolution binding (safe.sound.write led ownTerm) ?_ ?_ safe.elected ?_
  · intro t' written member
    by_cases same : t' = t
    · subst same
      rw [Ledger.write_book_self] at member
      rcases List.mem_append.mp member with old | new
      · exact safe.bounded t' written old
      · rw [List.mem_singleton.mp new, ownTerm]
    · rw [Ledger.write_book_of_ne entry same] at member
      exact safe.bounded t' written member
  · intro q t'
    by_cases same : t' = t
    · subst same
      simp only [Ledger.write_book_self, List.length_append, List.length_singleton]
      exact (safe.ack_le q t').trans (Nat.le_succ _)
    · simp only [Ledger.write_book_of_ne entry same]
      exact safe.ack_le q t'
  · intro t' later part lt ledLater held
    rcases own held with old | ⟨rfl, long⟩
    · rcases safe.books t' later part lt ledLater old with inBook | dead
      · exact .inl (inBook.trans (evolution.ledger.book later ledLater))
      · exact .inr (evolution.dead dead)
    · -- the majority that elected the later leader can never acknowledge the new entry
      right
      obtain ⟨quorum, majority, promised⟩ := safe.elected later ledLater
      refine ⟨quorum, majority, fun q member => ⟨lt.trans_le (promised q member), ?_⟩⟩
      rw [long]
      exact Nat.lt_succ_of_le (safe.ack_le q t')

/-- A candidate with a majority of ballots for the log it holds takes the lead
of a vacant term. -/
theorem elect (safe : Safe termOf population R) {i : ι} {quorum : Finset ι}
    (vacant : R.leader t = none) (rooted : R.Rooted termOf (R.log i))
    (earlier : ∀ entry ∈ R.log i, termOf entry < t)
    (majority : Majority population quorum)
    (voted : ∀ q ∈ quorum, t ≤ R.promise q ∧
      (q = i ∨ R.ballots ⟨q, t, endOf termOf (R.log i)⟩)) :
    Safe termOf population { R with toLedger := R.toLedger.elect t i (R.log i) } := by
  have evolution := evolves_elect (i := i) vacant (R.log i)
  -- the new book has no entry of its own term yet
  have own : ∀ {t' part},
      OwnPart termOf { R with toLedger := R.toLedger.elect t i (R.log i) } t' part →
        t' ≠ t ∧ OwnPart termOf R t' part := by
    rintro t' part ⟨led, inBook, before, entry, rfl, ownTerm⟩
    have ne : t' ≠ t := by
      rintro rfl
      simp only [Ledger.elect_book_self] at inBook
      have lt := earlier entry (inBook.subset (by simp))
      omega
    simp only [Ledger.elect_book_of_ne i ne, Ledger.elect_leader_of_ne i ne] at inBook led
    exact ⟨ne, led, inBook, before, entry, rfl, ownTerm⟩
  have binding : ∀ {q t' part},
      Binding termOf { R with toLedger := R.toLedger.elect t i (R.log i) } q t' part →
        Binding termOf R q t' part := fun held => ⟨(own held.1).2, held.2⟩
  refine safe.extend evolution binding (safe.sound.elect i vacant rooted) ?_ ?_ ?_ ?_
  · intro t' entry member
    by_cases same : t' = t
    · subst same
      rw [Ledger.elect_book_self] at member
      exact (earlier entry member).le
    · rw [Ledger.elect_book_of_ne i same] at member
      exact safe.bounded t' entry member
  · intro q t'
    by_cases same : t' = t
    · subst same
      have none := safe.ack_le q t'
      rw [safe.sound.unled t' vacant] at none
      exact none.trans (Nat.zero_le _)
    · simp only [Ledger.elect_book_of_ne i same]
      exact safe.ack_le q t'
  · intro t' led
    by_cases same : t' = t
    · subst same
      exact ⟨quorum, majority, fun q member => (voted q member).1⟩
    · simp only [Ledger.elect_leader_of_ne i same] at led
      exact safe.elected t' led
  · intro t' later part lt ledLater held
    obtain ⟨ne, old⟩ := own held
    by_cases same : later = t
    · subst same
      simp only [Ledger.elect_book_self]
      refine (?_ : part <+: R.log i ∨ Dead population R t' part.length).imp_right
        evolution.dead
      by_cases silent : ∀ q ∈ quorum, R.ack q t' < part.length
      · exact .inr ⟨quorum, majority, fun q member =>
          ⟨lt.trans_le (voted q member).1, silent q member⟩⟩
      · push Not at silent
        obtain ⟨q, member, acked⟩ := silent
        rcases (voted q member).2 with rfl | cast
        · exact safe.logs q t' part ⟨old, acked⟩
        · rcases (safe.ballots _ cast).2 t' part lt ⟨old, acked⟩ with claims | dead
          · exact safe.contains_of_upTo old rooted claims
          · exact .inr dead
    · simp only [Ledger.elect_leader_of_ne i same, Ledger.elect_book_of_ne i same]
        at ledLater ⊢
      exact (safe.books t' later part lt ledLater old).imp_right evolution.dead

end Safe

end Register

end Consensus
