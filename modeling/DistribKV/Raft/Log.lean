import DistribKV.Consensus.Ledger
import DistribKV.Raft.Lifecycle

/-!
# The loops over the retained log

Closed forms of the two loops that mix absolute indices with slice offsets: the
follower's append loop and the leader's collecting loop.  Both are stated over
the retained log and its base, and then over the whole log, of which the
retained log is a suffix.
-/

namespace DistribKV

/-! ## Alignment -/

/-- Entries carry consecutive absolute indices, starting right after `base`. -/
def Aligned (base : Nat) (log : List LogEntry) : Prop :=
  ∀ k entry, log[k]? = some entry → entry.index = base + k + 1

namespace Aligned

variable {base : Nat} {log other : List LogEntry}

@[simp] theorem nil : Aligned base [] := by
  intro k entry found
  simp at found

theorem cons_iff {entry : LogEntry} :
    Aligned base (entry :: log) ↔ entry.index = base + 1 ∧ Aligned (base + 1) log := by
  constructor
  · intro aligned
    refine ⟨aligned 0 entry rfl, fun k held found => ?_⟩
    have index := aligned (k + 1) held found
    omega
  · rintro ⟨first, rest⟩ k held found
    cases k with
    | zero =>
        cases found
        exact first
    | succ k =>
        have index := rest k held found
        omega

instance decidable : ∀ (base : Nat) (log : List LogEntry), Decidable (Aligned base log)
  | _, [] => isTrue nil
  | base, entry :: log =>
      have := decidable (base + 1) log
      decidable_of_iff (entry.index = base + 1 ∧ Aligned (base + 1) log) cons_iff.symm

theorem append_iff :
    Aligned base (log ++ other) ↔ Aligned base log ∧ Aligned (base + log.length) other := by
  induction log generalizing base with
  | nil => simp
  | cons entry log ih =>
      rw [List.cons_append, cons_iff, cons_iff, ih, List.length_cons, and_assoc,
        show base + 1 + log.length = base + (log.length + 1) by omega]

theorem of_isPrefix (aligned : Aligned base log) (isPrefix : other <+: log) :
    Aligned base other := by
  obtain ⟨rest, rfl⟩ := isPrefix
  exact (append_iff.mp aligned).1

theorem take (aligned : Aligned base log) (n : Nat) : Aligned base (log.take n) :=
  aligned.of_isPrefix (List.take_prefix n log)

theorem drop (aligned : Aligned base log) (n : Nat) : Aligned (base + n) (log.drop n) := by
  intro k entry found
  rw [List.getElem?_drop] at found
  have index := aligned (n + k) entry found
  omega

theorem concat (aligned : Aligned base log) {entry : LogEntry}
    (index : entry.index = base + log.length + 1) : Aligned base (log ++ [entry]) :=
  append_iff.mpr ⟨aligned, cons_iff.mpr ⟨index, nil⟩⟩

/-- Keeping the entries above an absolute index drops a front part of the log. -/
theorem filter_eq_drop (aligned : Aligned base log) {n : Nat} (above : base ≤ n) :
    (log.filter fun entry => decide (entry.index > n)) = log.drop (n - base) := by
  induction log generalizing base with
  | nil => simp
  | cons entry log ih =>
      obtain ⟨first, rest⟩ := cons_iff.mp aligned
      rcases Nat.eq_or_lt_of_le above with rfl | lt
      · -- every entry lies above the base
        rw [Nat.sub_self, List.drop_zero, List.filter_eq_self]
        intro held member
        obtain ⟨k, found⟩ := List.mem_iff_getElem?.mp member
        have index := aligned k held found
        simp only [decide_eq_true_eq]
        omega
      · have dropped : ¬ entry.index > n := by omega
        rw [List.filter_cons_of_neg (by simpa using dropped), ih rest lt,
          show n - base = (n - (base + 1)) + 1 by omega, List.drop_succ_cons]

theorem getLast_index (aligned : Aligned base log) :
    (log.getLast?.map (·.index)).getD base = base + log.length := by
  rw [List.getLast?_eq_getElem?]
  cases found : log[log.length - 1]? with
  | none =>
      have short := List.getElem?_eq_none_iff.mp found
      simp only [Option.map_none, Option.getD_none]
      omega
  | some entry =>
      have index := aligned _ _ found
      have bound := (List.getElem?_eq_some_iff.mp found).1
      simp only [Option.map_some, Option.getD_some]
      omega

end Aligned

/-! ## The append loop -/

/-- Number of leading positions at which two lists of entries agree on the term. -/
def agreeing : List LogEntry → List LogEntry → Nat
  | held :: log, sent :: entries =>
      if held.term = sent.term then agreeing log entries + 1 else 0
  | _, _ => 0

@[simp] theorem agreeing_nil_right (log : List LogEntry) : agreeing log [] = 0 := by
  cases log <;> rfl

theorem agreeing_le_left (log entries : List LogEntry) :
    agreeing log entries ≤ log.length := by
  fun_induction agreeing log entries with
  | case1 _ _ _ _ _ ih => simpa using ih
  | case2 => simp
  | case3 => simp

theorem agreeing_le_right (log entries : List LogEntry) :
    agreeing log entries ≤ entries.length := by
  fun_induction agreeing log entries with
  | case1 _ _ _ _ _ ih => simpa using ih
  | case2 => simp
  | case3 => simp

/-- Below the count the terms agree. -/
theorem same_term_of_lt_agreeing {log entries : List LogEntry} {k : Nat}
    (lt : k < agreeing log entries) :
    ∃ held sent, log[k]? = some held ∧ entries[k]? = some sent ∧
      held.term = sent.term := by
  fun_induction agreeing log entries generalizing k with
  | case1 held log sent entries same ih =>
      cases k with
      | zero => exact ⟨held, sent, rfl, rfl, same⟩
      | succ k => exact ih (by omega)
  | case2 => omega
  | case3 => omega

/-- At the count they do not. -/
theorem term_ne_at_agreeing {log entries : List LogEntry} {held sent : LogEntry}
    (inLog : log[agreeing log entries]? = some held)
    (inEntries : entries[agreeing log entries]? = some sent) : held.term ≠ sent.term := by
  fun_induction agreeing log entries with
  | case1 _ _ _ _ _ ih => exact ih inLog inEntries
  | case2 first log second entries differ =>
      cases inLog
      cases inEntries
      exact differ
  | case3 log entries notBoth =>
      cases log with
      | nil => simp at inLog
      | cons first log =>
          cases entries with
          | nil => simp at inEntries
          | cons second entries => exact absurd rfl (notBoth first log second entries rfl)

namespace Raft

variable {logBase prevLogIndex i : Nat} {log entries : List LogEntry} {modified : Bool}

/-- Once the loop has reached the end of the log, it appends everything left. -/
theorem appendLoop_at_end (atEnd : logBase + log.length = prevLogIndex + i) :
    appendLoop logBase prevLogIndex i entries (log, true) = some (log ++ entries, true) := by
  induction entries generalizing i log with
  | nil => simp [appendLoop]
  | cons entry rest ih =>
      have outside : ¬ (((prevLogIndex + i + 1 : Nat) : Int) - logBase - 1 < log.length) := by
        omega
      have next : logBase + (log ++ [entry]).length = prevLogIndex + (i + 1) := by
        simp only [List.length_append, List.length_singleton]
        omega
      rw [appendLoop, if_neg outside, ih next, List.append_assoc, List.singleton_append]

/-- The loop keeps the log as far as terms agree.  When entries are left at that
point, it cuts the log there and appends them. -/
theorem appendLoop_eq (inside : logBase ≤ prevLogIndex + i)
    (reach : prevLogIndex + i ≤ logBase + log.length) :
    appendLoop logBase prevLogIndex i entries (log, modified) =
      let offset := prevLogIndex + i - logBase
      let kept := agreeing (log.drop offset) entries
      some (if kept = entries.length then (log, modified)
        else (log.take (offset + kept) ++ entries.drop kept, true)) := by
  induction entries generalizing i with
  | nil => simp [appendLoop]
  | cons entry rest ih =>
      obtain ⟨offset, shift⟩ : ∃ offset, prevLogIndex + i = logBase + offset :=
        ⟨prevLogIndex + i - logBase, by omega⟩
      have arrayIdx : ((prevLogIndex + i + 1 : Nat) : Int) - logBase - 1 = (offset : Nat) := by
        omega
      have offsetEq : prevLogIndex + i - logBase = offset := by omega
      have offsetNext : prevLogIndex + (i + 1) - logBase = offset + 1 := by omega
      rw [appendLoop]
      simp only [arrayIdx, offsetEq, entryAt_natCast, Int.toNat_natCast]
      by_cases bound : offset < log.length
      · rw [if_pos (by omega), List.getElem?_eq_getElem bound,
          List.drop_eq_getElem_cons bound]
        by_cases same : log[offset].term = entry.term
        · simp only [ne_eq, same, not_true_eq_false, ↓reduceIte]
          rw [ih (by omega) (by omega)]
          simp only [offsetNext, agreeing, same, ↓reduceIte, List.length_cons,
            Nat.add_right_cancel_iff, List.drop_succ_cons]
          rw [show offset + 1 + agreeing (log.drop (offset + 1)) rest =
            offset + (agreeing (log.drop (offset + 1)) rest + 1) by omega]
        · simp only [ne_eq, same, not_false_eq_true, ↓reduceIte]
          have atEnd : logBase + (log.take offset ++ [entry]).length =
              prevLogIndex + (i + 1) := by
            simp only [List.length_append, List.length_take, List.length_singleton]
            omega
          rw [appendLoop_at_end atEnd]
          simp [agreeing, same]
      · have offsetLength : offset = log.length := by omega
        have atEnd : logBase + (log ++ [entry]).length = prevLogIndex + (i + 1) := by
          simp only [List.length_append, List.length_singleton]
          omega
        rw [if_neg (by omega), appendLoop_at_end atEnd]
        simp [offsetLength, agreeing]

/-! ### Accepted requests -/

theorem entry_of_prevLogOk {r : Raft} {req : AppendEntriesRequest}
    (consistent : r.prevLogOk req) (positive : 0 < req.prevLogIndex) :
    ∃ k entry, req.prevLogIndex = r.logBase + k + 1 ∧ r.log[k]? = some entry ∧
      entry.term = req.prevLogTerm := by
  unfold prevLogOk at consistent
  rw [if_pos positive] at consistent
  split at consistent
  · simp at consistent
  next entry found =>
    unfold entryAt at found
    split at found
    next nonneg =>
      refine ⟨req.prevLogIndex - r.logBase - 1, entry, by omega, ?_, by simpa using consistent⟩
      rw [← found]
      congr 1
      omega
    · cases found

namespace Accepts

variable {r : Raft} {req : AppendEntriesRequest}

/-- Entries of an accepted request start inside the retained log or right after
it: anything else is a run-time panic. -/
theorem reach (accepts : Accepts r req log modified) :
    req.entries = [] ∨
      r.logBase ≤ req.prevLogIndex ∧ req.prevLogIndex ≤ r.logBase + r.log.length := by
  rcases Nat.eq_zero_or_pos req.prevLogIndex with zero | positive
  · rcases Nat.eq_zero_or_pos r.logBase with noBase | based
    · exact .inr (by omega)
    · -- the first offset is negative
      left
      have loop := accepts.loop
      cases sent : req.entries with
      | nil => rfl
      | cons entry rest =>
          have negative : ((req.prevLogIndex + 0 + 1 : Nat) : Int) - r.logBase - 1 < 0 := by
            omega
          rw [sent, appendLoop, if_pos (by omega), entryAt_of_neg negative] at loop
          cases loop
  · obtain ⟨k, entry, position, found, -⟩ := entry_of_prevLogOk accepts.consistent positive
    have bound := (List.getElem?_eq_some_iff.mp found).1
    exact .inr (by omega)

/-- What the loop leaves, in closed form. -/
theorem result (accepts : Accepts r req log modified) :
    (log, modified) =
      let offset := req.prevLogIndex - r.logBase
      let kept := agreeing (r.log.drop offset) req.entries
      if kept = req.entries.length then (r.log, false)
      else (r.log.take (offset + kept) ++ req.entries.drop kept, true) := by
  have loop := accepts.loop
  rcases accepts.reach with none | ⟨inside, reach⟩
  · rw [none] at loop
    cases loop
    simp [none]
  · rw [appendLoop_eq (by omega) (by omega)] at loop
    exact (Option.some.inj loop).symm

/-- A request with consecutive indices keeps the log aligned. -/
theorem aligned (accepts : Accepts r req log modified) (aligned : Aligned r.logBase r.log)
    (sent : Aligned req.prevLogIndex req.entries) : Aligned r.logBase log := by
  have result := accepts.result
  simp only at result
  split at result
  · cases result
    exact aligned
  next entriesLeft =>
    cases result
    rcases accepts.reach with none | ⟨inside, reach⟩
    · simp [none] at entriesLeft
    · have kept := agreeing_le_left (r.log.drop (req.prevLogIndex - r.logBase)) req.entries
      rw [List.length_drop] at kept
      refine Aligned.append_iff.mpr ⟨aligned.take _, ?_⟩
      rw [List.length_take, Nat.min_eq_left (by omega)]
      have tail := sent.drop (agreeing (r.log.drop (req.prevLogIndex - r.logBase))
        req.entries)
      convert tail using 1
      omega

end Accepts

end Raft

/-! ### Parts of a book -/

/-- A request carries a part of a book: the entries after position
`prevLogIndex`, preceded by an entry of term `prevLogTerm`. -/
structure Slice (book : List LogEntry) (req : AppendEntriesRequest) : Prop where
  fits : req.prevLogIndex ≤ book.length
  entries : req.entries <+: book.drop req.prevLogIndex
  term : 0 < req.prevLogIndex → ∀ entry, book[req.prevLogIndex - 1]? = some entry →
    entry.term = req.prevLogTerm

namespace Slice

variable {book later : List LogEntry} {req : AppendEntriesRequest}

/-- The last position the request reaches. -/
theorem length_le (slice : Slice book req) :
    req.prevLogIndex + req.entries.length ≤ book.length := by
  have fits := slice.fits
  have bound := slice.entries.length_le
  rw [List.length_drop] at bound
  omega

theorem take_eq (slice : Slice book req) :
    book.take (req.prevLogIndex + req.entries.length) =
      book.take req.prevLogIndex ++ req.entries := by
  rw [List.take_add, ← List.prefix_iff_eq_take.mp slice.entries]

/-- The first entries of a request may be read in the book. -/
theorem take_append_drop (slice : Slice book req) {k : Nat} (le : k ≤ req.entries.length) :
    book.take (req.prevLogIndex + k) ++ req.entries.drop k =
      book.take (req.prevLogIndex + req.entries.length) := by
  have sent : (book.drop req.prevLogIndex).take k = req.entries.take k := by
    obtain ⟨rest, whole⟩ := slice.entries
    rw [← whole, List.take_append_of_le_length le]
  rw [slice.take_eq, List.take_add, sent, List.append_assoc, List.take_append_drop]

theorem getElem? (slice : Slice book req) {k : Nat} {sent : LogEntry}
    (found : req.entries[k]? = some sent) :
    book[req.prevLogIndex + k]? = some sent := by
  obtain ⟨rest, whole⟩ := slice.entries
  rw [← List.getElem?_drop, ← whole,
    List.getElem?_append_left (List.getElem?_eq_some_iff.mp found).1]
  exact found

theorem extend (slice : Slice book req) (isPrefix : book <+: later) : Slice later req := by
  obtain ⟨rest, rfl⟩ := isPrefix
  refine ⟨slice.fits.trans (by simp), ?_, ?_⟩
  · rw [List.drop_append_of_le_length slice.fits]
    exact slice.entries.trans (List.prefix_append _ _)
  · intro positive entry found
    have fits := slice.fits
    rw [List.getElem?_append_left (by omega)] at found
    exact slice.term positive entry found

end Slice

/-- The log-matching relation between a log and a book. -/
def Agrees (log book : List LogEntry) : Prop :=
  ∀ k held sent, log[k]? = some held → book[k]? = some sent → held.term = sent.term →
    log.take (k + 1) = book.take (k + 1)

/-- Positions of the whole log past the folded part are those of the retained
log. -/
theorem getElem?_whole {folded log : List LogEntry} {base : Nat}
    (based : folded.length = base) (k : Nat) : (folded ++ log)[base + k]? = log[k]? := by
  rw [← based, List.getElem?_append_right (Nat.le_add_right _ _), Nat.add_sub_cancel_left]

theorem take_whole {folded log : List LogEntry} {base : Nat}
    (based : folded.length = base) (k : Nat) :
    (folded ++ log).take (base + k) = folded ++ log.take k := by
  rw [← based, List.take_length_add_append]

theorem drop_whole {folded log : List LogEntry} {base : Nat}
    (based : folded.length = base) (k : Nat) :
    (folded ++ log).drop (base + k) = log.drop k := by
  rw [← based, List.drop_length_add_append]

namespace Raft

open Consensus

variable {r : Raft} {folded book log : List LogEntry} {modified : Bool}

/-- The consistency check makes the whole log and the book equal up to
`prevLogIndex`. -/
theorem Accepts.take_prevLogIndex {req : AppendEntriesRequest}
    (accepts : Accepts r req log modified) (based : folded.length = r.logBase)
    (slice : Slice book req) (agrees : Agrees (folded ++ r.log) book) :
    (folded ++ r.log).take req.prevLogIndex = book.take req.prevLogIndex := by
  rcases Nat.eq_zero_or_pos req.prevLogIndex with zero | positive
  · simp [zero]
  · obtain ⟨k, held, position, found, sameTerm⟩ :=
      entry_of_prevLogOk accepts.consistent positive
    have fits := slice.fits
    have inBook : k + r.logBase < book.length := by omega
    have sent := slice.term positive book[k + r.logBase] (by
      rw [position, Nat.add_sub_cancel, Nat.add_comm, List.getElem?_eq_getElem inBook])
    rw [position]
    refine agrees (r.logBase + k) held book[k + r.logBase] ?_ ?_ (sameTerm.trans sent.symm)
    · rw [getElem?_whole based]
      exact found
    · rw [Nat.add_comm, List.getElem?_eq_getElem inBook]

section Loop

variable {req : AppendEntriesRequest} {offset : Nat} (based : folded.length = r.logBase)
  (slice : Slice book req) (shift : req.prevLogIndex = r.logBase + offset)
include based slice shift

/-- The loop makes them equal as far as the terms agree. -/
theorem take_agreeing (agrees : Agrees (folded ++ r.log) book)
    (before : (folded ++ r.log).take req.prevLogIndex = book.take req.prevLogIndex) :
    (folded ++ r.log).take
        (req.prevLogIndex + agreeing (r.log.drop offset) req.entries) =
      book.take (req.prevLogIndex + agreeing (r.log.drop offset) req.entries) := by
  cases count : agreeing (r.log.drop offset) req.entries with
  | zero => exact before
  | succ k =>
      obtain ⟨held, sent, inLog, inEntries, sameTerm⟩ :=
        same_term_of_lt_agreeing (show k < agreeing (r.log.drop offset) req.entries by omega)
      refine agrees (req.prevLogIndex + k) held sent ?_ (slice.getElem? inEntries) sameTerm
      rw [shift, Nat.add_assoc, getElem?_whole based, ← List.getElem?_drop]
      exact inLog

/-- Where the loop stops early, the log lacks an entry of the request. -/
theorem not_prefix_of_agreeing_lt
    (early : agreeing (r.log.drop offset) req.entries < req.entries.length) :
    ¬ book.take (req.prevLogIndex + req.entries.length) <+: folded ++ r.log := by
  rintro ⟨rest, whole⟩
  have sent := slice.getElem? (List.getElem?_eq_getElem early)
  have inPart : (book.take (req.prevLogIndex + req.entries.length))[
      req.prevLogIndex + agreeing (r.log.drop offset) req.entries]? =
        some req.entries[agreeing (r.log.drop offset) req.entries] := by
    rw [List.getElem?_take_of_lt (by omega)]
    exact sent
  rw [← List.getElem?_append_left (List.getElem?_eq_some_iff.mp inPart).1, whole, shift,
    Nat.add_assoc, getElem?_whole based, ← List.getElem?_drop] at inPart
  exact term_ne_at_agreeing inPart (List.getElem?_eq_getElem early) rfl

end Loop

/-- An accepted part of a book is merged into the whole log, and the log is
reported as modified exactly when it did not contain that part. -/
theorem Accepts.merge {req : AppendEntriesRequest} (accepts : Accepts r req log modified)
    (based : folded.length = r.logBase) (slice : Slice book req)
    (agrees : Agrees (folded ++ r.log) book) :
    folded ++ log = Consensus.merge (folded ++ r.log)
        (book.take (req.prevLogIndex + req.entries.length)) ∧
      modified = !decide (book.take (req.prevLogIndex + req.entries.length) <+:
        folded ++ r.log) := by
  have before := accepts.take_prevLogIndex based slice agrees
  have result := accepts.result
  rcases accepts.reach with none | ⟨inside, reach⟩
  · have contained : book.take (req.prevLogIndex + req.entries.length) <+:
        folded ++ r.log := by
      rw [none, List.length_nil, Nat.add_zero, ← before]
      exact List.take_prefix _ _
    simp only [none, agreeing_nil_right, List.length_nil, ↓reduceIte, Prod.mk.injEq]
      at result
    obtain ⟨rfl, rfl⟩ := result
    simp [Consensus.merge, contained]
  · obtain ⟨offset, shift⟩ : ∃ offset, req.prevLogIndex = r.logBase + offset :=
      ⟨req.prevLogIndex - r.logBase, by omega⟩
    rw [show req.prevLogIndex - r.logBase = offset by omega] at result
    simp only at result
    have upTo := take_agreeing based slice shift agrees before
    have keptLe := agreeing_le_right (r.log.drop offset) req.entries
    split at result
    next all =>
      obtain ⟨rfl, rfl⟩ := Prod.mk.inj result
      rw [all] at upTo
      have contained : book.take (req.prevLogIndex + req.entries.length) <+:
          folded ++ r.log := by
        rw [← upTo]
        exact List.take_prefix _ _
      simp [Consensus.merge, contained]
    next entriesLeft =>
      obtain ⟨rfl, rfl⟩ := Prod.mk.inj result
      have missing := not_prefix_of_agreeing_lt based slice shift (by omega)
      refine ⟨?_, by simp [missing]⟩
      rw [Consensus.merge, if_neg missing]
      calc folded ++ (r.log.take (offset + agreeing (r.log.drop offset) req.entries) ++
              req.entries.drop (agreeing (r.log.drop offset) req.entries))
          _ = book.take (req.prevLogIndex + agreeing (r.log.drop offset) req.entries) ++
              req.entries.drop (agreeing (r.log.drop offset) req.entries) := by
            rw [← upTo, shift, Nat.add_assoc, take_whole based, List.append_assoc]
          _ = book.take (req.prevLogIndex + req.entries.length) := slice.take_append_drop keptLe

/-! ## The collecting loop -/

/-- Above the base the loop copies a window of the retained log. -/
theorem collectEntries_eq (log : List LogEntry) {base start : Nat} (above : base < start)
    (n : Nat) :
    collectEntries log base (List.range' start n) =
      (log.drop (start - base - 1)).take n := by
  induction n generalizing start with
  | zero => simp [collectEntries]
  | succ n ih =>
      obtain ⟨k, rfl⟩ : ∃ k, start = base + k + 1 := ⟨start - base - 1, by omega⟩
      have arrayIdx : ((base + k + 1 : Nat) : Int) - base - 1 = (k : Nat) := by omega
      rw [List.range'_succ, collectEntries, arrayIdx, entryAt_natCast,
        show base + k + 1 - base - 1 = k by omega]
      cases found : log[k]? with
      | none => simp [List.drop_eq_nil_of_le (List.getElem?_eq_none_iff.mp found)]
      | some entry =>
          obtain ⟨bound, rfl⟩ := List.getElem?_eq_some_iff.mp found
          rw [List.drop_eq_getElem_cons bound, List.take_succ_cons, ih (by omega),
            show base + k + 1 + 1 - base - 1 = k + 1 by omega]

/-- At or below the base it collects nothing. -/
theorem collectEntries_below (log : List LogEntry) {base start : Nat} (below : start ≤ base)
    (n : Nat) : collectEntries log base (List.range' start n) = [] := by
  cases n with
  | zero => simp [collectEntries]
  | succ n =>
      have negative : (start : Int) - base - 1 < 0 := by omega
      rw [List.range'_succ, collectEntries, entryAt_of_neg negative]

/-- Whatever index it starts from, it collects entries that follow each other in
the whole log. -/
theorem collectEntries_prefix {base : Nat} (based : folded.length = base)
    (start n : Nat) :
    collectEntries log base (List.range' (start + 1) n) <+: (folded ++ log).drop start := by
  rcases Nat.lt_or_ge base (start + 1) with above | below
  · rw [collectEntries_eq log above]
    obtain ⟨k, rfl⟩ : ∃ k, start = base + k := ⟨start - base, by omega⟩
    rw [drop_whole based, show base + k + 1 - base - 1 = k by omega]
    exact List.take_prefix _ _
  · rw [collectEntries_below log below]
    exact List.nil_prefix

/-- Every request the leader builds is a part of its whole log. -/
theorem appendEntriesRequest_slice (based : folded.length = r.logBase)
    {nextIdx : Nat} (positive : 0 < nextIdx) (term commitIdx : Nat) :
    Slice (folded ++ r.log) (r.appendEntriesRequest nextIdx term commitIdx) := by
  obtain ⟨prev, rfl⟩ : ∃ prev, nextIdx = prev + 1 := ⟨nextIdx - 1, by omega⟩
  unfold appendEntriesRequest
  simp only [Nat.add_sub_cancel]
  rcases Nat.eq_zero_or_pos prev with rfl | later
  · exact ⟨Nat.zero_le _, collectEntries_prefix based 0 _, by simp⟩
  · simp only [gt_iff_lt, later, ↓reduceIte]
    split
    next entry retained =>
      unfold entryAt at retained
      split at retained
      next nonneg =>
        have bound := (List.getElem?_eq_some_iff.mp retained).1
        have position : prev - 1 = r.logBase + ((prev : Int) - r.logBase - 1).toNat := by
          omega
        refine ⟨?_, collectEntries_prefix based prev _, ?_⟩
        · simp only [List.length_append, based]
          omega
        · intro _ held inWhole
          simp only [position] at inWhole
          rw [getElem?_whole based, retained] at inWhole
          cases inWhole
          rfl
      · cases retained
    next => exact ⟨Nat.zero_le _, collectEntries_prefix based 0 _, by simp⟩

/-! ## Installed snapshots -/

/-- Installing a snapshot merges the entries it stands for into the whole log. -/
theorem install_merge {req : InstallSnapshotRequest} {covered : List LogEntry}
    (based : folded.length = r.logBase) (aligned : Aligned r.logBase r.log)
    (above : r.logBase < req.lastIncludedIndex)
    (length : covered.length = req.lastIncludedIndex)
    (lastTerm : ∀ entry, covered.getLast? = some entry → entry.term = req.lastIncludedTerm)
    (agrees : Agrees (folded ++ r.log) covered) (consistent : r.contradicts req = false) :
    covered ++ (r.install req).log = Consensus.merge (folded ++ r.log) covered := by
  obtain ⟨k, position⟩ : ∃ k, req.lastIncludedIndex = r.logBase + k + 1 :=
    ⟨req.lastIncludedIndex - r.logBase - 1, by omega⟩
  have tail : (r.install req).log = (folded ++ r.log).drop req.lastIncludedIndex := by
    simp only [install]
    rw [aligned.filter_eq_drop above.le, position, Nat.add_assoc, drop_whole based,
      Nat.add_sub_cancel_left]
  rw [tail]
  cases found : r.log[k]? with
  | none =>
      -- the whole log ends before the snapshot does
      have short := List.getElem?_eq_none_iff.mp found
      have ends : (folded ++ r.log).length < covered.length := by
        rw [List.length_append, based, length]
        omega
      have missing : ¬ covered <+: folded ++ r.log := fun contained =>
        absurd contained.length_le (Nat.not_le.mpr ends)
      rw [Consensus.merge, if_neg missing,
        List.drop_eq_nil_of_le (length ▸ ends.le), List.append_nil]
  | some held =>
      have arrayIdx : (req.lastIncludedIndex : Int) - r.logBase - 1 = (k : Nat) := by omega
      have index : held.index = req.lastIncludedIndex := by
        rw [aligned k held found, position]
      have sameTerm : held.term = req.lastIncludedTerm := by
        simpa [contradicts, arrayIdx, found, index] using consistent
      have inCovered : r.logBase + k < covered.length := by omega
      have last : covered.getLast? = some covered[r.logBase + k] := by
        rw [List.getLast?_eq_getElem?, show covered.length - 1 = r.logBase + k by omega,
          List.getElem?_eq_getElem inCovered]
      have upTo := agrees (r.logBase + k) held covered[r.logBase + k]
        ((getElem?_whole based k).trans found) (List.getElem?_eq_getElem inCovered)
        (sameTerm.trans (lastTerm _ last).symm)
      rw [← position, ← length, List.take_length] at upTo
      have contained : covered <+: folded ++ r.log := upTo ▸ List.take_prefix _ _
      rw [Consensus.merge, if_pos contained, ← length]
      nth_rewrite 1 [← upTo]
      exact List.take_append_drop _ _

end Raft

end DistribKV
