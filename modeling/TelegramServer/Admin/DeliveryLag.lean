import TelegramServer.Conc.Machine

/-!
# Published delivery lag

Calls of `sampleWithAccountHead` as one machine. A call draws its attempt, takes its sample, and
loads and swaps until it has stored a state or met one of a later attempt. A pointer to a stored
state is the number of states stored before it.
-/

namespace TelegramServer.Admin

open Conc List

inductive DeliveryLagState where
  | available | stale | unavailable

inductive DeliveryLagCoverage where
  | full | part | none
  deriving DecidableEq

structure DeliveryLagSample where
  worstPts : Int := 0
  eligibleConnections : Int := 0
  sampledConnections : Int := 0
  complete : Bool := false

def deliveryLagCoverage (sample : DeliveryLagSample) : DeliveryLagCoverage :=
  if !sample.complete then
    if sample.sampledConnections = 0 then .none else .part
  else if sample.sampledConnections = sample.eligibleConnections then .full
  else if sample.sampledConnections = 0 then .none
  else .part

/-- The state the sampler holds. An attempt is a `uint64`: the runs are of fewer than `2 ^ 64`
calls. -/
structure Held where
  attempt : Nat := 0
  hasFullSample : Bool := false
  fullWorstPts : Int := 0
  fullSampledAt : Int := 0
  state : DeliveryLagState := .unavailable
  coverage : DeliveryLagCoverage := .none
  eligibleConnections : Int := 0
  sampledConnections : Int := 0

structure DeliveryLag where
  worstPts : Option Int
  state : DeliveryLagState
  coverage : DeliveryLagCoverage
  eligibleConnections : Int
  sampledConnections : Int
  sampledAt : Option Int

def deliveryLagResponse (p : Held) : DeliveryLag where
  worstPts := if p.hasFullSample then some p.fullWorstPts else none
  state := p.state
  coverage := p.coverage
  eligibleConnections := p.eligibleConnections
  sampledConnections := p.sampledConnections
  sampledAt := if p.hasFullSample then some p.fullSampledAt else none

/-- What `publish` stores in place of `prior`. -/
def Held.next (prior : Held) (attempt : Nat) (raw : DeliveryLagSample) (sampledAt : Int) : Held :=
  let coverage := deliveryLagCoverage raw
  let next : Held := { prior with
    attempt, coverage
    eligibleConnections := raw.eligibleConnections
    sampledConnections := raw.sampledConnections }
  if coverage = .full then
    { next with
      hasFullSample := true
      fullWorstPts := raw.worstPts
      fullSampledAt := sampledAt
      state := .available }
  else { next with state := if prior.hasFullSample then .stale else .unavailable }

inductive Stage where
  | sampling
  | publishing
  | loaded (pointer : Nat) (prior : Held)
  | returned (answer : DeliveryLag)

/-- A call, what it has sampled and how often it has moved. -/
structure Sampling where
  stage : Stage := .sampling
  raw : DeliveryLagSample := {}
  sampledAt : Int := 0
  moves : Nat := 0

/-- The calls are found by the attempt they drew; `earlier` are the states stored before `state`. -/
structure DeliveryLagSampler where
  attempt : Nat := 0
  state : Held := {}
  earlier : List Held := []
  calls : Nat → Option Sampling := fun _ => none

inductive Move where
  | start
  | go (attempt : Nat) (raw : DeliveryLagSample) (now : Int)

namespace DeliveryLagSampler

def set (s : DeliveryLagSampler) (attempt : Nat) (c : Sampling) : DeliveryLagSampler :=
  { s with calls := Function.update s.calls attempt (some c) }

def store (s : DeliveryLagSampler) (next : Held) : DeliveryLagSampler :=
  { s with state := next, earlier := s.state :: s.earlier }

def move (s : DeliveryLagSampler) (attempt : Nat) (raw : DeliveryLagSample) (now : Int)
    (c : Sampling) : Option DeliveryLagSampler :=
  let c := { c with moves := c.moves + 1 }
  match c.stage with
  | .sampling =>
    let full := raw.complete && raw.sampledConnections = raw.eligibleConnections
    some (s.set attempt { c with stage := .publishing, raw, sampledAt := if full then now else 0 })
  | .publishing =>
    if attempt < s.state.attempt then
      some (s.set attempt { c with stage := .returned (deliveryLagResponse s.state) })
    else some (s.set attempt { c with stage := .loaded s.earlier.length s.state })
  | .loaded pointer prior =>
    if pointer = s.earlier.length then
      let next := prior.next attempt c.raw c.sampledAt
      some ((s.store next).set attempt { c with stage := .returned (deliveryLagResponse next) })
    else some (s.set attempt { c with stage := .publishing })
  | .returned _ => none

def machine : Machine DeliveryLagSampler Move where
  step s
    | .start => some ({ s with attempt := s.attempt + 1 }.set (s.attempt + 1) {})
    | .go attempt raw now => (s.calls attempt).bind (s.move attempt raw now)

end DeliveryLagSampler

def Held.retained (p : Held) : Option (Int × Int) :=
  if p.hasFullSample then some (p.fullWorstPts, p.fullSampledAt) else none

def Sampling.lag (c : Sampling) : Option (Int × Int) :=
  if c.raw.complete ∧ c.raw.sampledConnections = c.raw.eligibleConnections then
    some (c.raw.worstPts, c.sampledAt)
  else none

theorem Sampling.lag_eq (c : Sampling) : c.lag =
    if deliveryLagCoverage c.raw = .full then some (c.raw.worstPts, c.sampledAt) else none := by
  unfold lag deliveryLagCoverage
  split_ifs <;> simp_all

def DeliveryLagSampler.lag (s : DeliveryLagSampler) (attempt : Nat) : Option (Int × Int) :=
  (s.calls attempt).bind Sampling.lag

/-- The complete samples among the attempts of the given states. -/
def completed (lag : Nat → Option (Int × Int)) (l : List Held) : List (Int × Int) :=
  l.filterMap fun p => lag p.attempt

/-- What a state says of the states stored up to it. -/
structure Held.Tells (lag : Nat → Option (Int × Int)) (p : Held) (before : List Held) : Prop where
  later : ∀ q ∈ before, q.attempt < p.attempt
  retained : p.retained = (completed lag (p :: before)).head?
  state : p.state =
    if lag p.attempt ≠ none then .available
    else if completed lag before ≠ [] then .stale
    else .unavailable

variable {lag lag' : Nat → Option (Int × Int)} {p : Held} {before : List Held}

theorem Held.Tells.congr (h : p.Tells lag before)
    (heq : ∀ q ∈ p :: before, lag q.attempt = lag' q.attempt) : p.Tells lag' before := by
  have hall : completed lag (p :: before) = completed lag' (p :: before) := filterMap_congr heq
  have hbefore : completed lag before = completed lag' before :=
    filterMap_congr fun q hq => heq q (.tail _ hq)
  exact ⟨h.later, hall ▸ h.retained, heq p (.head _) ▸ hbefore ▸ h.state⟩

theorem Held.attempt_next (p : Held) (a : Nat) (raw : DeliveryLagSample) (sampledAt : Int) :
    (p.next a raw sampledAt).attempt = a := by
  simp only [next]
  split <;> rfl

theorem Held.Tells.next (h : p.Tells lag before) {c : Sampling} {a : Nat} (hlt : p.attempt < a)
    (hlag : lag a = c.lag) : (p.next a c.raw c.sampledAt).Tells lag (p :: before) := by
  rw [Sampling.lag_eq] at hlag
  refine ⟨?_, ?_, ?_⟩
  · rw [attempt_next]
    exact forall_mem_cons.mpr ⟨hlt, fun q hq => (h.later q hq).trans hlt⟩
  · rw [completed, filterMap_cons, attempt_next, hlag]
    by_cases hfull : deliveryLagCoverage c.raw = .full
    · simp [Held.next, Held.retained, hfull]
    · simpa [completed, Held.next, Held.retained, hfull] using h.retained
  · rw [attempt_next, hlag]
    have hret := h.retained
    by_cases hfull : deliveryLagCoverage c.raw = .full
    · simp [Held.next, hfull]
    · cases hcompleted : completed lag (p :: before) <;>
        simp_all [Held.next, Held.retained]

/-! ## The invariant -/

namespace DeliveryLagSampler

/-- A bound on the moves a call still has: a lost swap means that a later attempt was stored. -/
def left (s : DeliveryLagSampler) (a : Nat) : Stage → Nat
  | .sampling => 2 * a + 4
  | .publishing => 2 * (a + 1 - s.state.attempt) + 1
  | .loaded pointer _ => 2 * (a + 1 - s.state.attempt) + 2 * min 1 (s.earlier.length - pointer)
  | .returned _ => 0

def StageOk (s : DeliveryLagSampler) (a : Nat) : Stage → Prop
  | .loaded pointer prior => prior.attempt ≤ a ∧
    (pointer < s.earlier.length ∨ pointer = s.earlier.length ∧ prior = s.state)
  | .returned answer => ∃ p ∈ s.state :: s.earlier, a ≤ p.attempt ∧ answer = deliveryLagResponse p
  | _ => True

def CallOk (s : DeliveryLagSampler) (a : Nat) (c : Sampling) : Prop :=
  a ≤ s.attempt ∧ s.StageOk a c.stage ∧ c.moves + s.left a c.stage ≤ 2 * a + 4

structure Ok (s : DeliveryLagSampler) : Prop where
  history : ∀ p before, p :: before <:+ s.state :: s.earlier → p.Tells s.lag before
  drawn : ∀ p ∈ s.state :: s.earlier, p.attempt ≤ s.attempt
  done : ∀ p ∈ s.state :: s.earlier, ∀ c, s.calls p.attempt = some c →
    ∃ answer, c.stage = .returned answer
  calls : ∀ a c, s.calls a = some c → s.CallOk a c

variable {s t : DeliveryLagSampler} {a : Nat} {c : Sampling}

theorem CallOk.store {next : Held} (h : s.CallOk a c) (hlt : s.state.attempt < next.attempt) :
    (s.store next).CallOk a c := by
  obtain ⟨stage, raw, sampledAt, moves⟩ := c
  obtain ⟨hdrawn, hstage, hmoves⟩ := h
  cases stage with
  | sampling => exact ⟨hdrawn, trivial, hmoves⟩
  | publishing =>
    refine ⟨hdrawn, trivial, ?_⟩
    simp only [left, DeliveryLagSampler.store] at hmoves ⊢
    omega
  | loaded pointer prior =>
    obtain ⟨hle, hpointer⟩ := hstage
    have hlost : pointer < s.earlier.length + 1 := by omega
    refine ⟨hdrawn, ⟨hle, .inl hlost⟩, ?_⟩
    simp only [left, DeliveryLagSampler.store, length_cons] at hmoves ⊢
    obtain hp | ⟨hp, rfl⟩ := hpointer <;> omega
  | returned answer =>
    obtain ⟨p, hp, h⟩ := hstage
    exact ⟨hdrawn, ⟨p, .tail _ hp, h⟩, hmoves⟩

theorem calls_set {n : Nat} {d : Sampling} (h : (s.set a c).calls n = some d) :
    n = a ∧ d = c ∨ n ≠ a ∧ s.calls n = some d := by
  by_cases hn : n = a
  · exact .inl ⟨hn, by simpa [DeliveryLagSampler.set, hn] using h.symm⟩
  · exact .inr ⟨hn, by simpa [DeliveryLagSampler.set, hn] using h⟩

theorem lag_set : (s.set a c).lag = Function.update s.lag a c.lag := by
  funext n
  by_cases hn : n = a <;> simp [lag, DeliveryLagSampler.set, hn]

theorem Ok.set (h : s.Ok) (hfresh : ∀ p ∈ s.state :: s.earlier, p.attempt ≠ a)
    (hc : s.CallOk a c) : (s.set a c).Ok := by
  refine ⟨fun p before hp => (h.history p before hp).congr fun q hq => ?_, h.drawn,
    fun p hp d hd => ?_, fun n d hd => ?_⟩
  · rw [lag_set, Function.update_of_ne (hfresh q (hp.subset hq))]
  · exact h.done p hp d ((calls_set hd).resolve_left fun hn => hfresh p hp hn.1).2
  · obtain ⟨rfl, rfl⟩ | ⟨-, hd⟩ := calls_set hd
    · exact hc
    · exact h.calls n d hd

theorem Ok.publish (h : s.Ok) (hlt : s.state.attempt < a) (hc : s.calls a = some c) {next : Held}
    {answer : DeliveryLag} {moves : Nat} (hnext : next = s.state.next a c.raw c.sampledAt)
    (hcall : (s.store next).CallOk a { c with stage := .returned answer, moves }) :
    ((s.store next).set a { c with stage := .returned answer, moves }).Ok := by
  have hattempt : next.attempt = a := hnext ▸ Held.attempt_next ..
  have hown : s.lag a = c.lag := by rw [lag, hc, Option.bind_some]
  have hlag : ((s.store next).set a { c with stage := .returned answer, moves }).lag = s.lag := by
    rw [lag_set]
    exact Function.update_eq_self_iff.mpr hown.symm
  refine ⟨fun p before hp => ?_, ?_, fun p hp d hd => ?_, fun n d hd => ?_⟩
  · rw [hlag]
    obtain heq | hp := suffix_cons_iff.mp hp
    · obtain ⟨rfl, rfl⟩ := List.cons.inj heq
      exact hnext ▸ (h.history _ _ (suffix_refl _)).next hlt hown
    · exact h.history p before hp
  · exact forall_mem_cons.mpr ⟨hattempt ▸ hcall.1, h.drawn⟩
  · obtain ⟨-, rfl⟩ | ⟨hn, hd⟩ := calls_set hd
    · exact ⟨answer, rfl⟩
    · exact h.done p ((mem_cons.mp hp).resolve_left fun hp => hn (hp ▸ hattempt)) d hd
  · obtain ⟨rfl, rfl⟩ | ⟨-, hd⟩ := calls_set hd
    · exact hcall
    · exact (h.calls n d hd).store (hattempt ▸ hlt)

theorem Ok.move (h : s.Ok) (hc : s.calls a = some c) {raw : DeliveryLagSample} {now : Int}
    (hmove : s.move a raw now c = some t) : t.Ok := by
  have hcall := h.calls a c hc
  obtain ⟨stage, taken, sampledAt, moves⟩ := c
  obtain ⟨hdrawn, hstage, hmoves⟩ := hcall
  have hfresh (hgoing : ∀ answer, stage ≠ .returned answer) :
      ∀ p ∈ s.state :: s.earlier, p.attempt ≠ a := by
    rintro p hp rfl
    obtain ⟨answer, hdone⟩ := h.done p hp _ hc
    exact hgoing answer hdone
  cases stage with
  | sampling =>
    cases hmove
    refine h.set (hfresh nofun) ⟨hdrawn, trivial, ?_⟩
    simp only [left] at hmoves ⊢
    omega
  | publishing =>
    simp only [DeliveryLagSampler.move] at hmove
    simp only [left] at hmoves
    split at hmove
    · next hlt =>
      cases hmove
      exact h.set (hfresh nofun) ⟨hdrawn, ⟨_, .head _, hlt.le, rfl⟩, by simp only [left]; omega⟩
    · next hle =>
      cases hmove
      refine h.set (hfresh nofun) ⟨hdrawn, ⟨not_lt.mp hle, .inr ⟨rfl, rfl⟩⟩, ?_⟩
      simp only [left]
      omega
  | loaded pointer prior =>
    obtain ⟨hle, hpointer⟩ := hstage
    simp only [DeliveryLagSampler.move] at hmove
    simp only [left] at hmoves
    split at hmove
    · next hp =>
      obtain ⟨-, rfl⟩ := hpointer.resolve_left hp.not_lt
      have hlt : s.state.attempt < a := hle.lt_of_ne (hfresh nofun _ (.head _))
      cases hmove
      refine h.publish hlt hc rfl ⟨hdrawn, ⟨_, .head _, ?_, rfl⟩, ?_⟩
      · exact (Held.attempt_next ..).ge
      · simp only [left]
        omega
    · next hp =>
      cases hmove
      refine h.set (hfresh nofun) ⟨hdrawn, trivial, ?_⟩
      simp only [left]
      omega
  | returned answer => cases hmove

theorem Ok.start (h : s.Ok) : ({ s with attempt := s.attempt + 1 }.set (s.attempt + 1) {}).Ok := by
  have hok : Ok { s with attempt := s.attempt + 1 } :=
    ⟨h.history, fun p hp => (h.drawn p hp).step, h.done,
      fun n d hd => ⟨(h.calls n d hd).1.step, (h.calls n d hd).2⟩⟩
  refine hok.set (fun p hp => ?_) ⟨le_rfl, trivial, by simp [left]⟩
  exact (Nat.lt_succ_of_le (h.drawn p hp)).ne

theorem ok_of_reach (hs : machine.Reach free {} s) : s.Ok := by
  refine hs.invariant ⟨fun p before hp => ?_, by simp, by simp, by simp⟩ fun t act u h _ hstep => ?_
  · obtain ⟨rfl, rfl⟩ : p = {} ∧ before = [] := by simpa using suffix_cons_iff.mp hp
    exact ⟨nofun, by simp [Held.retained, completed, lag], by simp [completed, lag]⟩
  · cases act with
    | start =>
      cases hstep
      exact h.start
    | go a raw now =>
      obtain ⟨c, hc, hmove⟩ := Option.bind_eq_some_iff.mp hstep
      exact h.move hc hmove

/-- In every interleaving: the states stored up to any of them have ascending attempts; what it
retains is the lag and time of one complete sample among them, and differs from what the state
before it retained only where its own sample is complete; its state says which of them were
complete. A call answers with a state stored by its own or a later attempt, after at most
`2 * a + 4` moves, each of which it can make whatever the others do. -/
theorem published_lag_never_goes_back (hs : machine.Reach free {} s) :
    (∀ p before, p :: before <:+ s.state :: s.earlier → (∀ q ∈ before, q.attempt < p.attempt) ∧
      (∀ l, p.retained = some l → ∃ q ∈ p :: before, q.attempt ≤ p.attempt ∧
        s.lag q.attempt = some l) ∧
      (∀ q rest, before = q :: rest → p.retained ≠ q.retained →
        p.retained = s.lag p.attempt ∧ s.lag p.attempt ≠ none) ∧
      (p.state = .available ↔ s.lag p.attempt ≠ none) ∧
      (p.state = .stale ↔ s.lag p.attempt = none ∧ ∃ q ∈ before, s.lag q.attempt ≠ none) ∧
      (p.state = .unavailable ↔ ∀ q ∈ p :: before, s.lag q.attempt = none)) ∧
    ∀ a c, s.calls a = some c → c.moves ≤ 2 * a + 4 ∧
      ((∀ raw now, (machine.step s (.go a raw now)).isSome) ∨
        ∃ p ∈ s.state :: s.earlier, a ≤ p.attempt ∧ c.stage = .returned ⟨p.retained.map (·.1),
          p.state, p.coverage, p.eligibleConnections, p.sampledConnections,
          p.retained.map (·.2)⟩) := by
  have hok := ok_of_reach hs
  refine ⟨fun p before hp => ?_, fun a c hc => ?_⟩
  · obtain ⟨hlater, hretained, hstate⟩ := hok.history p before hp
    refine ⟨hlater, fun l hl => ?_, ?_, ?_⟩
    · obtain ⟨q, hq, hlag⟩ := mem_filterMap.mp (mem_of_mem_head? (hretained ▸ hl))
      refine ⟨q, hq, ?_, hlag⟩
      obtain rfl | hq := mem_cons.mp hq
      · exact le_rfl
      · exact (hlater q hq).le
    · rintro q rest rfl hne
      have hq := (hok.history q rest ((suffix_cons _ _).trans hp)).retained
      cases hown : s.lag p.attempt <;> simp_all [completed]
    · have hbefore : completed s.lag before = [] ↔ ∀ q ∈ before, s.lag q.attempt = none :=
        filterMap_eq_nil_iff
      cases hown : s.lag p.attempt <;> by_cases hnil : completed s.lag before = [] <;> simp_all
  · obtain ⟨-, hstage, hmoves⟩ := hok.calls a c hc
    refine ⟨(Nat.le_add_right _ _).trans hmoves, ?_⟩
    cases hst : c.stage with
    | sampling | publishing | loaded pointer prior =>
      refine .inl fun raw now => ?_
      simp only [machine, hc, Option.bind_some, DeliveryLagSampler.move, hst]
      split <;> rfl
    | returned answer =>
      obtain ⟨p, hp, hle, rfl⟩ := hst ▸ hstage
      refine .inr ⟨p, hp, hle, congrArg Stage.returned ?_⟩
      unfold Held.retained deliveryLagResponse
      cases p.hasFullSample <;> rfl

def overtaken : List Move :=
  [.start, .start, .go 2 ⟨7, 3, 3, true⟩ 5, .go 2 {} 0, .go 2 {} 0, .go 1 {} 6, .go 1 {} 0]

theorem published_lag_never_goes_back_overtaken :
    ∃ s, machine.run free {} overtaken = some s ∧ s.lag 2 = some (7, 5) ∧
      ∃ p ∈ s.state :: s.earlier, 1 ≤ p.attempt ∧
        (s.calls 1).map (·.stage) = some (.returned ⟨p.retained.map (·.1), p.state, p.coverage,
          p.eligibleConnections, p.sampledConnections, p.retained.map (·.2)⟩) := by
  refine ⟨_, rfl, rfl, ?_⟩
  have hreach := Machine.reach_of_run (rfl : machine.run free {} overtaken = some _)
  obtain ⟨p, hp, hle, hstage⟩ := ((published_lag_never_goes_back hreach).2 1 _ rfl).2.resolve_left
    fun h => nomatch h {} 0
  exact ⟨p, hp, hle, congrArg some hstage⟩

end DeliveryLagSampler

end TelegramServer.Admin
