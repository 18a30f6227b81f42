import DistributedKv.Fsm

/-!
# The shutdown signal of the join ticker

`Store.Shutdown` signals the join ticker of `bootstrapDStore` with a send on
the unbuffered `shutdownCh` inside a `select` with a `default`: the send
happens only when the ticker is blocked in its own `select`, and is dropped
otherwise. It then shuts raft down and, when that succeeds, sets `s.raft` to
nil before it clears the storer. The ticker calls raft at every tick
(`GetLeader`, then on the leader `GetServers` and the calls of `Join`), and
a call on a nil `*raft.Raft` panics, which ends the process.

A node is where its ticker is, whether raft is still set, its storer, and
whether the process has panicked; the ticker's steps and `Shutdown` calls
interleave in any order. When every `Shutdown` that closes raft finds the
ticker in its `select`, no run panics. A `Shutdown` that closes raft while
the ticker is inside a tick is lost: the ticker keeps running, and its next
call on raft panics.
-/

set_option autoImplicit false

namespace DistributedKv.TickerShutdown

open DistributedKv.Types DistributedKv.Fsm DistributedKv.PebbleDB

/-- Where the ticker goroutine is: blocked in its `select`, inside a tick,
or returned. -/
inductive Ticker where
  | waiting
  | ticking
  | stopped
  deriving DecidableEq, Repr

structure Node (σ : Type) where
  ticker : Ticker
  raftOpen : Bool
  storer : σ
  panicked : Bool

/-- A tick starts (its first call, `GetLeader`, is on raft), the tick makes
its next call on raft, the tick ends, or `Shutdown` is called, with what
`raft.Shutdown().Error()` returns. -/
inductive Event where
  | fire
  | call
  | finish
  | shutdown (raftErr : Option Error)
  deriving DecidableEq, Repr

variable {σ : Type} (st : Storer σ)

/-- `Store.Shutdown`. Raft's shutdown runs only while `s.raft` is set. -/
def shutdown (n : Node σ) (raftErr : Option Error) : Node σ :=
  let err := if n.raftOpen then raftErr else none
  { n with
    ticker := if n.ticker = .waiting then .stopped else n.ticker
    raftOpen := n.raftOpen && err.isSome
    storer := (storeShutdown st err n.storer).1 }

def raftCall (n : Node σ) : Node σ := if n.raftOpen then n else { n with panicked := true }

def step (n : Node σ) (e : Event) : Node σ :=
  if n.panicked then n
  else
    match e with
    | .fire => if n.ticker = .waiting then raftCall { n with ticker := .ticking } else n
    | .call => if n.ticker = .ticking then raftCall n else n
    | .finish => if n.ticker = .ticking then { n with ticker := .waiting } else n
    | .shutdown raftErr => shutdown st n raftErr

def run (n : Node σ) (evs : List Event) : Node σ := evs.foldl (step st) n

/-- Every `Shutdown` of the run that closes raft finds the ticker outside a tick. -/
def Handshakes : Node σ → List Event → Prop
  | _, [] => True
  | n, e::evs => (e = .shutdown none → n.raftOpen = true → n.ticker ≠ .ticking) ∧ Handshakes (step st n e) evs

instance instDecidableHandshakes : (n : Node σ) → (evs : List Event) → Decidable (Handshakes st n evs)
  | _, [] => isTrue trivial
  | n, e::evs =>
    have := instDecidableHandshakes (step st n e) evs
    inferInstanceAs (Decidable ((e = .shutdown none → n.raftOpen = true → n.ticker ≠ .ticking) ∧
      Handshakes st (step st n e) evs))

def Safe (n : Node σ) : Prop := n.panicked = false ∧ (n.raftOpen = false → n.ticker = .stopped)

def Doomed (n : Node σ) : Prop := n.panicked = true ∨ n.ticker ≠ .stopped ∧ n.raftOpen = false

variable {st}

theorem step_of_panicked {n : Node σ} (h : n.panicked = true) (e : Event) : step st n e = n := by
  simp [step, h]

theorem raftOpen_of_safe {n : Node σ} (h : Safe n) (hn : n.ticker ≠ .stopped) : n.raftOpen = true := by
  by_contra hopen
  exact hn (h.2 (by simpa using hopen))

theorem safe_step {n : Node σ} (h : Safe n) (e : Event)
    (he : e = .shutdown none → n.raftOpen = true → n.ticker ≠ .ticking) : Safe (step st n e) := by
  have hp := h.1
  cases e with
  | fire =>
    by_cases hw : n.ticker = .waiting
    · have hopen := raftOpen_of_safe h (by rw [hw]; simp)
      simp [step, hp, hw, raftCall, hopen, Safe]
    · simpa [step, hp, hw] using h
  | call =>
    by_cases ht : n.ticker = .ticking
    · have hopen := raftOpen_of_safe h (by rw [ht]; simp)
      simpa [step, hp, ht, raftCall, hopen] using h
    · simpa [step, hp, ht] using h
  | finish =>
    by_cases ht : n.ticker = .ticking
    · have hopen := raftOpen_of_safe h (by rw [ht]; simp)
      simp [step, hp, ht, Safe, hopen]
    · simpa [step, hp, ht] using h
  | shutdown raftErr =>
    refine ⟨by simp [step, hp, shutdown], fun hclosed => ?_⟩
    simp only [step, hp, shutdown, Bool.false_eq_true, if_false] at hclosed ⊢
    -- raft closes here only after a successful shutdown, which found the ticker in its `select`
    cases hopen : n.raftOpen with
    | false =>
      have hs := h.2 hopen
      simp [hs]
    | true =>
      cases raftErr with
      | some err => simp [hopen] at hclosed
      | none =>
        have hnt := he rfl hopen
        cases hticker : n.ticker <;> simp_all

theorem safe_run {n : Node σ} (h : Safe n) (evs : List Event) (hevs : Handshakes st n evs) :
    Safe (run st n evs) := by
  induction evs generalizing n with
  | nil => exact h
  | cons e evs ih => exact ih (safe_step h e hevs.1) hevs.2

theorem doomed_step {n : Node σ} (h : Doomed n) {e : Event} (he : ∀ err, e ≠ .shutdown err) :
    Doomed (step st n e) := by
  by_cases hp : n.panicked = true
  · rw [step_of_panicked hp]
    exact Or.inl hp
  obtain ⟨hn, hclosed⟩ := h.resolve_left hp
  cases e with
  | fire => by_cases hw : n.ticker = .waiting <;> simp [Doomed, step, hp, hw, raftCall, hclosed, hn]
  | call => by_cases ht : n.ticker = .ticking <;> simp [Doomed, step, hp, ht, raftCall, hclosed, hn]
  | finish => by_cases ht : n.ticker = .ticking <;> simp [Doomed, step, hp, ht, hclosed, hn]
  | shutdown raftErr => exact absurd rfl (he raftErr)

theorem doomed_run {n : Node σ} (h : Doomed n) (evs : List Event) (hevs : ∀ e ∈ evs, ∀ err, e ≠ .shutdown err) :
    Doomed (run st n evs) := by
  induction evs generalizing n with
  | nil => exact h
  | cons e evs ih =>
    exact ih (doomed_step h (hevs e List.mem_cons_self)) fun e' he' => hevs e' (List.mem_cons_of_mem e he')

/-- From the node `Open` leaves, a ticker in its `select` with raft set, no
run panics when every `Shutdown` that closes raft finds the ticker outside a
tick; raft is then gone only once the ticker has returned. -/
theorem shutdown_from_select_never_panics (s : σ) (evs : List Event)
    (hevs : Handshakes st ⟨.waiting, true, s, false⟩ evs) :
    (run st ⟨.waiting, true, s, false⟩ evs).panicked = false ∧
      ((run st ⟨.waiting, true, s, false⟩ evs).raftOpen = false → (run st ⟨.waiting, true, s, false⟩ evs).ticker = .stopped) :=
  safe_run ⟨rfl, fun h => absurd h (by simp)⟩ evs hevs

theorem shutdown_from_select_never_panics_sorted :
    let evs : List Event := [.fire, .call, .finish, .shutdown none, .fire, .shutdown none]
    Handshakes (persistedStorer sortedPebble) ⟨.waiting, true, sortedPebble.empty, false⟩ evs ∧
      (run (persistedStorer sortedPebble) ⟨.waiting, true, sortedPebble.empty, false⟩ evs).panicked = false ∧
      ((run (persistedStorer sortedPebble) ⟨.waiting, true, sortedPebble.empty, false⟩ evs).raftOpen = false →
        (run (persistedStorer sortedPebble) ⟨.waiting, true, sortedPebble.empty, false⟩ evs).ticker = .stopped) := by
  intro evs
  have hevs : Handshakes (persistedStorer sortedPebble) ⟨.waiting, true, sortedPebble.empty, false⟩ evs := by decide
  exact ⟨hevs, shutdown_from_select_never_panics sortedPebble.empty evs hevs⟩

/-- A `Shutdown` whose raft shutdown succeeds while the ticker is inside a
tick is lost: the ticker keeps running on a nil raft, its next call on raft
(the rest of the tick, or `GetLeader` at the next tick) panics, and without
another `Shutdown` the ticker never returns. -/
theorem shutdown_during_tick_is_lost (n : Node σ) (hticking : n.ticker = .ticking) (hopen : n.raftOpen = true)
    (hp : n.panicked = false) :
    (step st n (.shutdown none)).ticker = .ticking ∧ (step st n (.shutdown none)).raftOpen = false ∧
      (step st (step st n (.shutdown none)) .call).panicked = true ∧
      (step st (step st (step st n (.shutdown none)) .finish) .fire).panicked = true ∧
      ∀ evs, (∀ e ∈ evs, ∀ err, e ≠ .shutdown err) →
        Doomed (run st (step st n (.shutdown none)) evs) := by
  have hticker : (step st n (.shutdown none)).ticker = .ticking := by simp [step, hp, shutdown, hticking]
  have hclosed : (step st n (.shutdown none)).raftOpen = false := by simp [step, hp, shutdown, hopen]
  have hp' : (step st n (.shutdown none)).panicked = false := by simp [step, hp, shutdown]
  generalize step st n (.shutdown none) = n' at hticker hclosed hp' ⊢
  refine ⟨hticker, hclosed, ?_, ?_, fun evs hevs => doomed_run (Or.inr ⟨by simp [hticker], hclosed⟩) evs hevs⟩
  · simp [step, hp', hticker, raftCall, hclosed]
  · simp [step, hp', hticker, raftCall, hclosed]

theorem shutdown_during_tick_is_lost_sorted :
    let n : Node (SortedScan.SortedMap BigEndian.Bytes BigEndian.Bytes) := ⟨.ticking, true, sortedPebble.empty, false⟩
    n.ticker = .ticking ∧ n.raftOpen = true ∧ n.panicked = false ∧
      (step (persistedStorer sortedPebble) n (.shutdown none)).ticker = .ticking ∧
      (step (persistedStorer sortedPebble) n (.shutdown none)).raftOpen = false ∧
      (step (persistedStorer sortedPebble) (step (persistedStorer sortedPebble) n (.shutdown none)) .call).panicked = true ∧
      (step (persistedStorer sortedPebble)
        (step (persistedStorer sortedPebble) (step (persistedStorer sortedPebble) n (.shutdown none)) .finish) .fire).panicked = true ∧
      ∀ evs, (∀ e ∈ evs, ∀ err, e ≠ .shutdown err) →
        Doomed (run (persistedStorer sortedPebble) (step (persistedStorer sortedPebble) n (.shutdown none)) evs) := by
  intro n
  exact ⟨rfl, rfl, rfl, shutdown_during_tick_is_lost n rfl rfl rfl⟩

end DistributedKv.TickerShutdown
