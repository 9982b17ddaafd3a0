import Mathlib.Algebra.Ring.Int.Defs
import TelegramServer.Conc.Machine

/-!
# The sampler of log lines

Calls of `allow` and `flush` on one sampler. Every move is one atomic operation of one call: it
loads the time, compares and swaps it, adds to the count, or swaps the count for zero.
-/

namespace TelegramServer.Edge.Sampler

open Conc List

def int64 (x : Int) : Int := (x + 2 ^ 63) % 2 ^ 64 - 2 ^ 63

inductive Stage where
  | entered
  | loaded (last : Int)
  /-- An `allow` that has lost the swap. -/
  | lost
  | swapped
  | returned (dropped : Int) (emit : Bool)

/-- A call of `flush`, or of `allow` with its interval. -/
structure Call where
  interval : Option Int
  now : Int
  stage : Stage := .entered

structure LogSampler where
  last : Int := 0
  dropped : Int := 0
  calls : List Call := []

inductive Move where
  | start (interval : Option Int) (now : Int)
  | go (i : Nat)

/-- The times and the count after the call's next operation, and where the call is then. -/
def Call.next (c : Call) (last dropped : Int) : Option (Int × Int × Stage) :=
  match c.stage with
  | .entered => some (last, dropped, .loaded last)
  | .loaded seen =>
    if c.interval.any (int64 (c.now - seen) < ·)
      then some (last, int64 (dropped + 1), .returned 0 false)
    else if last = seen then some (c.now, dropped, .swapped)
    else if c.interval.isSome then some (last, dropped, .lost)
    else some (last, dropped, .returned 0 false)
  | .lost => c.interval.map fun _ => (last, int64 (dropped + 1), .returned 0 false)
  | .swapped => some (last, 0, .returned dropped (c.interval.isSome || 0 < dropped))
  | .returned .. => none

def step (s : LogSampler) : Move → Option LogSampler
  | .start interval now => some { s with calls := s.calls ++ [⟨interval, now, .entered⟩] }
  | .go i => do
    let c ← s.calls[i]?
    let (last, dropped, stage) ← c.next s.last s.dropped
    some { last, dropped, calls := s.calls.set i { c with stage } }

def machine : Machine LogSampler Move := ⟨step⟩

def Call.refused (c : Call) : Bool :=
  match c.stage with
  | .returned _ emit => c.interval.isSome && !emit
  | _ => false

/-- What a `flush` or a successful `allow` has handed out. -/
def Call.handed (c : Call) : Int :=
  match c.stage with
  | .returned dropped emit => if c.interval = none ∨ emit then dropped else 0
  | _ => 0

def LogSampler.refused (s : LogSampler) : Nat := s.calls.countP Call.refused

def LogSampler.handed (s : LogSampler) : Int := (s.calls.map Call.handed).sum

/-- An operation leaves the count, adds a refused call to it, or hands it out. -/
theorem next_cases {c : Call} {last dropped last' dropped' : Int} {stage : Stage}
    (h : c.next last dropped = some (last', dropped', stage)) :
    (c.refused = false ∧ c.handed = 0) ∧
      (dropped' = dropped ∧ { c with stage }.refused = false ∧ { c with stage }.handed = 0 ∨
        dropped' = int64 (dropped + 1) ∧ { c with stage }.refused ∧ { c with stage }.handed = 0 ∨
        dropped' = 0 ∧ { c with stage }.refused = false ∧ { c with stage }.handed = dropped) := by
  obtain ⟨interval, now, at_⟩ := c
  cases at_ <;> cases interval <;> grind [Call.next, Call.refused, Call.handed]

/-- The refused calls are those handed out and those still counted; up to a wrap of the count, and
exactly as long as they fit it. -/
structure Even (s : LogSampler) : Prop where
  wrapped : (s.refused - (s.handed + s.dropped)) % 2 ^ 64 = 0
  exact_ : s.refused < 2 ^ 63 → 0 ≤ s.dropped ∧ 0 ≤ s.handed ∧ s.refused = s.handed + s.dropped

theorem Even.step {s t : LogSampler} {m : Move} (h : Even s) (hs : step s m = some t) : Even t := by
  cases m with
  | start interval now =>
    obtain rfl := Option.some.inj hs
    obtain ⟨hwrapped, hexact⟩ := h
    constructor
    · simpa [LogSampler.refused, LogSampler.handed, Call.refused, Call.handed] using hwrapped
    · simpa [LogSampler.refused, LogSampler.handed, Call.refused, Call.handed] using hexact
  | go i =>
    obtain ⟨c, hc, hs⟩ := Option.bind_eq_some_iff.mp hs
    obtain ⟨⟨last, dropped, stage⟩, hnext, hs⟩ := Option.bind_eq_some_iff.mp hs
    obtain rfl := Option.some.inj hs
    obtain ⟨⟨hno, hnone⟩, hcases⟩ := next_cases hnext
    have hhanded := sum_map_set_add Call.handed hc { c with stage }
    have hrefused := fun b => countP_set_add Call.refused hc { c with stage } (c := b) hno
    obtain ⟨hwrapped, hexact⟩ := h
    unfold LogSampler.refused LogSampler.handed at hwrapped hexact
    rcases hcases with ⟨rfl, hr, hh⟩ | ⟨rfl, hr, hh⟩ | ⟨rfl, hr, hh⟩
    all_goals
      have hcount := hrefused _ hr
      rw [hh] at hhanded
      simp only [Bool.toNat_false, Bool.toNat_true] at hcount
      constructor <;> simp only [LogSampler.refused, LogSampler.handed, int64] <;> omega

/-- No count is lost, however the calls interleave: a refused call is handed out once or still
counted, up to a wrap of the count and exactly until it can wrap. -/
theorem sampler_loses_no_count {s : LogSampler} (h : machine.Reach free {} s) :
    (s.refused - (s.handed + s.dropped)) % 2 ^ 64 = 0 ∧
      (s.refused < 2 ^ 63 → s.refused = s.handed + s.dropped) := by
  have heven : Even s := h.invariant ⟨rfl, fun _ => ⟨Int.le_refl _, Int.le_refl _, rfl⟩⟩
    fun _ _ _ ht _ => ht.step
  exact ⟨heven.wrapped, fun hfew => (heven.exact_ hfew).2.2⟩

/-- Two calls; the first is refused between the other's swaps. -/
theorem sampler_loses_no_count_between_swaps :
    ∃ s, machine.Reach free {} s ∧ s.handed = 1 ∧ s.refused = s.handed + s.dropped := by
  obtain ⟨s, hreach, hhanded, hrefused⟩ : ∃ s, machine.Reach free {} s ∧ s.handed = 1 ∧
      s.refused = 1 :=
    Machine.exists_reach [.start (some 5) 9, .start (some 5) 2, .go 0, .go 1, .go 0, .go 1, .go 0]
      (by decide)
  exact ⟨s, hreach, hhanded, (sampler_loses_no_count hreach).2 (by rw [hrefused]; decide)⟩

theorem exists_refused (k : Nat) : ∃ s, machine.Reach free {} s ∧ s.last = 0 ∧
    (∀ c ∈ s.calls, c.stage = .returned 0 false) ∧ s.dropped = int64 k ∧ s.handed = 0 ∧
    s.refused = k := by
  induction k with
  | zero => exact ⟨{}, .refl, rfl, by simp, rfl, rfl, rfl⟩
  | succ k ih =>
    obtain ⟨s, hreach, hlast, hreturned, hdropped, hhanded, hrefused⟩ := ih
    refine ⟨⟨0, int64 (s.dropped + 1), s.calls ++ [⟨some 1, 0, .returned 0 false⟩]⟩, ?_, rfl, ?_,
      ?_, ?_, ?_⟩
    · refine ((hreach.step (a := .start (some 1) 0) trivial rfl).step
        (a := .go s.calls.length) trivial (by simp [machine, step, Call.next]; rfl)).step (a :=
      .go s.calls.length) trivial ?_
      simp [machine, step, Call.next, hlast, int64]
    · simpa [or_imp, forall_and] using hreturned
    · simp only [hdropped, int64]
      omega
    · simpa [LogSampler.handed, Call.handed] using hhanded
    · simpa [LogSampler.refused, Call.refused] using hrefused

/-- After 2^63 refused calls the count is negative. -/
theorem count_wraps : ∃ s, machine.Reach free {} s ∧
    (∀ c ∈ s.calls, c.stage = .returned 0 false) ∧ s.refused ≠ s.handed + s.dropped := by
  obtain ⟨s, hreach, -, hreturned, hdropped, hhanded, hrefused⟩ := exists_refused (2 ^ 63)
  refine ⟨s, hreach, hreturned, ?_⟩
  rw [hdropped, hhanded, hrefused]
  decide

end TelegramServer.Edge.Sampler
