import Mathlib.Data.List.Infix
import Mathlib.Logic.Function.Basic

/-!
# Replicated logs and the books of their leaders

An abstract account of replication by terms.  Every term has at most one leader,
and the *book* of a term is the log of that leader as it stands when the leader
last wrote to it.  A log is *rooted* when each of its prefixes is a prefix of the
book of the term its last entry was created in; rooted logs satisfy the
log-matching property, and every operation of the protocol keeps logs rooted.
-/

namespace Consensus

universe u v

/-- Leaders and their books, one of each for every term that has been led. -/
structure Ledger (ι : Type u) (ε : Type v) where
  leader : Nat → Option ι
  book : Nat → List ε

namespace Ledger

variable {ι : Type u} {ε : Type v} {termOf : ε → Nat}
variable {g h : Ledger ι ε} {log other : List ε}

/-- The ledger of a system in which no term has been led. -/
def empty : Ledger ι ε where
  leader _ := none
  book _ := []

/-- `h` extends `g`: leaders stay, books only grow. -/
structure Extends (g h : Ledger ι ε) : Prop where
  leader : ∀ t i, g.leader t = some i → h.leader t = some i
  book : ∀ t, (g.leader t).isSome → g.book t <+: h.book t

namespace Extends

theorem refl (g : Ledger ι ε) : Extends g g where
  leader _ _ held := held
  book _ _ := List.prefix_refl _

theorem led (extension : Extends g h) {t : Nat} (led : (g.leader t).isSome) :
    (h.leader t).isSome := by
  obtain ⟨i, held⟩ := Option.isSome_iff_exists.mp led
  rw [extension.leader t i held]
  rfl

theorem trans {k : Ledger ι ε} (first : Extends g h) (second : Extends h k) :
    Extends g k where
  leader t i held := second.leader t i (first.leader t i held)
  book t led := (first.book t led).trans (second.book t (first.led led))

end Extends

/-- Every prefix of the log is a prefix of the book of its last entry's term. -/
def Rooted (termOf : ε → Nat) (g : Ledger ι ε) (log : List ε) : Prop :=
  ∀ before entry, before ++ [entry] <+: log →
    (g.leader (termOf entry)).isSome ∧ before ++ [entry] <+: g.book (termOf entry)

namespace Rooted

@[simp] theorem nil : Rooted termOf g [] := by
  intro before entry isPrefix
  simp at isPrefix

theorem of_isPrefix (rooted : Rooted termOf g log) (isPrefix : other <+: log) :
    Rooted termOf g other := by
  intro before entry inOther
  exact rooted before entry (inOther.trans isPrefix)

theorem extend (rooted : Rooted termOf g log) (extension : Extends g h) :
    Rooted termOf h log := by
  intro before entry isPrefix
  obtain ⟨led, inBook⟩ := rooted before entry isPrefix
  exact ⟨extension.led led, inBook.trans (extension.book _ led)⟩

/-- Writing one more entry of its own term into a book keeps it rooted. -/
theorem concat {t : Nat} {entry : ε} (rooted : Rooted termOf g log)
    (led : (g.leader t).isSome) (ownTerm : termOf entry = t)
    (written : log ++ [entry] <+: g.book t) : Rooted termOf g (log ++ [entry]) := by
  intro before last isPrefix
  rcases List.prefix_concat_iff.mp isPrefix with whole | inside
  · obtain ⟨rfl, same⟩ := List.append_inj' whole rfl
    cases same
    rw [ownTerm]
    exact ⟨led, written⟩
  · exact rooted before last inside

/-- Log matching: two rooted logs whose entries at one position carry the same
term agree on everything up to that position. -/
theorem matching (rooted : Rooted termOf g log) (otherRooted : Rooted termOf g other)
    {before beforeOther : List ε} {entry entryOther : ε}
    (inLog : before ++ [entry] <+: log) (inOther : beforeOther ++ [entryOther] <+: other)
    (sameLength : before.length = beforeOther.length)
    (sameTerm : termOf entry = termOf entryOther) :
    before ++ [entry] = beforeOther ++ [entryOther] := by
  have left := (rooted before entry inLog).2
  have right := (otherRooted beforeOther entryOther inOther).2
  rw [← sameTerm] at right
  apply (List.prefix_of_prefix_length_le left right _).eq_of_length
  · simp [sameLength]
  · simp [sameLength]

/-- Log matching by position. -/
theorem take_eq_take (rooted : Rooted termOf g log) (otherRooted : Rooted termOf g other)
    {k : Nat} {entry entryOther : ε} (inLog : log[k]? = some entry)
    (inOther : other[k]? = some entryOther) (sameTerm : termOf entry = termOf entryOther) :
    log.take (k + 1) = other.take (k + 1) := by
  have split : ∀ {l : List ε} {x : ε}, l[k]? = some x →
      l.take (k + 1) = l.take k ++ [x] ∧ (l.take k).length = k := by
    intro l x found
    obtain ⟨bound, rfl⟩ := List.getElem?_eq_some_iff.mp found
    exact ⟨(List.take_append_getElem bound).symm, List.length_take_of_le bound.le⟩
  obtain ⟨splitLog, lengthLog⟩ := split inLog
  obtain ⟨splitOther, lengthOther⟩ := split inOther
  rw [splitLog, splitOther]
  apply rooted.matching otherRooted
  · rw [← splitLog]
    exact List.take_prefix _ _
  · rw [← splitOther]
    exact List.take_prefix _ _
  · rw [lengthLog, lengthOther]
  · exact sameTerm

end Rooted

/-! ## Sound ledgers -/

/-- Books are rooted, and empty as long as their term has no leader. -/
structure Sound (termOf : ε → Nat) (g : Ledger ι ε) : Prop where
  rooted : ∀ t, Rooted termOf g (g.book t)
  unled : ∀ t, g.leader t = none → g.book t = []

theorem Sound.empty : Sound termOf (empty : Ledger ι ε) where
  rooted _ := .nil
  unled _ _ := rfl

/-- The leader of a new term opens its book with the log it holds. -/
def elect (g : Ledger ι ε) (t : Nat) (i : ι) (log : List ε) : Ledger ι ε where
  leader := Function.update g.leader t (some i)
  book := Function.update g.book t log

/-- A leader writes one entry into its book. -/
def write (g : Ledger ι ε) (t : Nat) (entry : ε) : Ledger ι ε :=
  { g with book := Function.update g.book t (g.book t ++ [entry]) }

@[simp] theorem elect_leader_self (t : Nat) (i : ι) :
    (g.elect t i log).leader t = some i := by simp [elect]

@[simp] theorem elect_book_self (t : Nat) (i : ι) :
    (g.elect t i log).book t = log := by simp [elect]

theorem elect_leader_of_ne {t other : Nat} (i : ι) (ne : other ≠ t) :
    (g.elect t i log).leader other = g.leader other := by simp [elect, ne]

theorem elect_book_of_ne {t other : Nat} (i : ι) (ne : other ≠ t) :
    (g.elect t i log).book other = g.book other := by simp [elect, ne]

@[simp] theorem write_leader (t : Nat) (entry : ε) :
    (g.write t entry).leader = g.leader := rfl

@[simp] theorem write_book_self (t : Nat) (entry : ε) :
    (g.write t entry).book t = g.book t ++ [entry] := by simp [write]

theorem write_book_of_ne {t other : Nat} (entry : ε) (ne : other ≠ t) :
    (g.write t entry).book other = g.book other := by simp [write, ne]

theorem extends_elect {t : Nat} (i : ι) (log : List ε) (vacant : g.leader t = none) :
    Extends g (g.elect t i log) where
  leader other j held := by
    have ne : other ≠ t := by
      rintro rfl
      simp [vacant] at held
    rw [elect_leader_of_ne i ne]
    exact held
  book other led := by
    have ne : other ≠ t := by
      rintro rfl
      simp [vacant] at led
    rw [elect_book_of_ne i ne]

theorem extends_write (t : Nat) (entry : ε) : Extends g (g.write t entry) where
  leader _ _ held := held
  book other _ := by
    by_cases same : other = t
    · subst same
      simp
    · rw [write_book_of_ne entry same]

theorem Sound.elect (sound : Sound termOf g) {t : Nat} (i : ι)
    (vacant : g.leader t = none) (rooted : Rooted termOf g log) :
    Sound termOf (g.elect t i log) where
  rooted other := by
    by_cases same : other = t
    · subst same
      rw [elect_book_self]
      exact rooted.extend (extends_elect i log vacant)
    · rw [elect_book_of_ne i same]
      exact (sound.rooted other).extend (extends_elect i log vacant)
  unled other noLeader := by
    have ne : other ≠ t := by
      rintro rfl
      simp at noLeader
    rw [elect_leader_of_ne i ne] at noLeader
    rw [elect_book_of_ne i ne]
    exact sound.unled other noLeader

theorem Sound.write (sound : Sound termOf g) {t : Nat} {entry : ε}
    (led : (g.leader t).isSome) (ownTerm : termOf entry = t) :
    Sound termOf (g.write t entry) where
  rooted other := by
    by_cases same : other = t
    · subst same
      rw [write_book_self]
      apply ((sound.rooted other).extend (extends_write other entry)).concat
      · exact led
      · exact ownTerm
      · rw [write_book_self]
    · rw [write_book_of_ne entry same]
      exact (sound.rooted other).extend (extends_write t entry)
  unled other noLeader := by
    have ne : other ≠ t := by
      rintro rfl
      rw [write_leader] at noLeader
      simp [noLeader] at led
    rw [write_book_of_ne entry ne]
    exact sound.unled other noLeader

end Ledger

/-! ## Merging a log with a part of a book -/

section Merge

variable {ε : Type v} [DecidableEq ε] {log part common : List ε}

/-- The log a replica is left with after receiving `part` of a book: its own log
when that already contains the part, otherwise the part. -/
def merge (log part : List ε) : List ε := if part <+: log then log else part

theorem merge_eq_or (log part : List ε) :
    merge log part = log ∨ merge log part = part := by
  unfold merge
  split
  · exact .inl rfl
  · exact .inr rfl

theorem part_prefix_merge (log part : List ε) : part <+: merge log part := by
  unfold merge
  split
  · assumption
  · exact List.prefix_refl part

theorem Ledger.Rooted.merge {ι : Type u} {g : Ledger ι ε} {termOf : ε → Nat}
    (rooted : g.Rooted termOf log) (partRooted : g.Rooted termOf part) :
    g.Rooted termOf (merge log part) := by
  rcases merge_eq_or log part with kept | replaced
  · rw [kept]
    exact rooted
  · rw [replaced]
    exact partRooted

/-- What a log shares with a book survives merging any part of that book. -/
theorem prefix_merge {book : List ε} (inLog : common <+: log) (inBook : common <+: book)
    (isPart : part <+: book) : common <+: merge log part := by
  unfold merge
  split
  · exact inLog
  next missing =>
    rcases List.prefix_or_prefix_of_prefix inBook isPart with held | longer
    · exact held
    · exact absurd (longer.trans inLog) missing

end Merge

end Consensus
