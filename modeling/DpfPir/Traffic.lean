import Mathlib.Algebra.BigOperators.Group.Finset.Piecewise
import DpfPir.Network

/-!
# The traffic of a party

How many bytes the parties of a network have written and read, what their programs can
know about that when they return, and which peers they talk to.

Results:
1. `Proc.Ends.bind`: the rule for sequences.
2. `Step.metered`, `Reaches.metered`: what holds of the programs at the start holds of
   every result, with the numbers of bytes that the logs show.
3. `Proc.Talks.bind`, `Reaches.spoken`: programs that talk to peers only leave the other
   channels alone.
-/

namespace Network

section Ends

variable {P K β α γ : Type}

/-- When the program returns, `good` holds of its result and of the numbers of bytes that
it has written and read by then. The counts start at `sent` and `received`. -/
def Proc.Ends (good : α → Nat → Nat → Prop) : Proc P K β α → Nat → Nat → Prop
  | .ret a, sent, received => good a sent received
  | .abort, _, _ => True
  | .send _ _ bs next, sent, received => next.Ends good (sent + bs.length) received
  | .recv _ _ n next, sent, received =>
    ∀ bs, bs.length = n → (next bs).Ends good sent (received + n)

theorem Proc.Ends.imp {good good' : α → Nat → Nat → Prop} {m : Proc P K β α}
    {sent received : Nat} (ends : m.Ends good sent received)
    (weaker : ∀ a sent received, good a sent received → good' a sent received) :
    m.Ends good' sent received := by
  induction m generalizing sent received with
  | ret a => exact weaker a sent received ends
  | abort => exact trivial
  | send target kind bytes next ih => exact ih ends
  | recv source kind len next ih => exact fun bs full => ih bs (ends bs full)

theorem Proc.Ends.bind {good : α → Nat → Nat → Prop} {good' : γ → Nat → Nat → Prop}
    {m : Proc P K β α} {f : α → Proc P K β γ} {sent received : Nat}
    (first : m.Ends good sent received)
    (second : ∀ a sent received, good a sent received → (f a).Ends good' sent received) :
    (m >>= f).Ends good' sent received := by
  induction m generalizing sent received with
  | ret a => exact second a sent received first
  | abort => exact trivial
  | send target kind bytes next ih => exact ih first
  | recv source kind len next ih => exact fun bs full => ih bs (first bs full)

end Ends

/-! ## The logs -/

section Metered

variable {P K β : Type} {R : P → Type} [DecidableEq P] [Fintype P]

/-- The number of bytes that `p` has written. -/
def State.bytesSent (s : State P K β R) (p : P) : Nat := ∑ q, (bytesOf (s.sent (p, q))).length

/-- The number of bytes that `p` has read. -/
def State.bytesReceived (s : State P K β R) (p : P) : Nat :=
  ∑ q, (bytesOf (s.received (q, p))).length

/-- The bytes of a log to which one field is added. -/
theorem length_bytesOf_update {C : Type} [DecidableEq C] (log : C → List (Field K β)) (c d : C)
    (k : K) (bs : List β) :
    (bytesOf (Function.update log c (log c ++ [⟨k, bs⟩]) d)).length =
      (bytesOf (log d)).length + if d = c then bs.length else 0 := by
  by_cases same : d = c
  · subst same
    simp
  · simp [same]

variable {s s1 : State P K β R} {p q : P} {k : K} {bs rest : List β} {next : Proc P K β (R p)}

theorem bytesSent_afterSend (p' : P) :
    (s.afterSend p q k bs next).bytesSent p' =
      s.bytesSent p' + if p' = p then bs.length else 0 := by
  simp only [State.bytesSent, State.afterSend, length_bytesOf_update, Finset.sum_add_distrib,
    Prod.mk.injEq]
  by_cases same : p' = p
  · simp [same]
  · simp [same]

theorem bytesReceived_afterRecv (p' : P) :
    (s.afterRecv p q k bs rest next).bytesReceived p' =
      s.bytesReceived p' + if p' = p then bs.length else 0 := by
  simp only [State.bytesReceived, State.afterRecv, length_bytesOf_update, Finset.sum_add_distrib,
    Prod.mk.injEq]
  by_cases same : p' = p
  · simp [same]
  · simp [same]

/-- Every program that is left to run ends well, counted from what the logs show. -/
def Metered (good : (p : P) → R p → Nat → Nat → Prop) (s : State P K β R) : Prop :=
  ∀ p, (s.procs p).Ends (good p) (s.bytesSent p) (s.bytesReceived p)

variable {good : (p : P) → R p → Nat → Nat → Prop}

theorem Step.metered (step : Step s p s1) (metered : Metered good s) : Metered good s1 := by
  intro p'
  have before := metered p'
  cases step with
  | @send q k bs next now =>
    rw [bytesSent_afterSend]
    show Proc.Ends (good p') (Function.update s.procs p next p') _ (s.bytesReceived p')
    by_cases same : p' = p
    · subst same
      rw [now] at before
      rw [Function.update_self, if_pos rfl]
      exact before
    · rw [Function.update_of_ne same, if_neg same]
      exact before
  | @recv q k n bs rest next now ready len =>
    rw [bytesReceived_afterRecv]
    show Proc.Ends (good p') (Function.update s.procs p (next bs) p') (s.bytesSent p') _
    by_cases same : p' = p
    · subst same
      rw [now] at before
      rw [Function.update_self, if_pos rfl, len]
      exact before bs len
    · rw [Function.update_of_ne same, if_neg same]
      exact before

theorem Reaches.metered (run : Reaches s s1) (metered : Metered good s) : Metered good s1 := by
  induction run with
  | refl => exact metered
  | tail _ step ih =>
    obtain ⟨p, step⟩ := step
    exact step.metered ih

/-- What the programs guarantee at the start holds of their results. -/
theorem Reaches.ends {procs : (p : P) → Proc P K β (R p)}
    (run : Reaches (State.start procs) s) (guarantee : ∀ p, (procs p).Ends (good p) 0 0) {p : P}
    {result : R p} (ended : s.procs p = .ret result) :
    good p result (s.bytesSent p) (s.bytesReceived p) := by
  have start : Metered good (State.start procs) := by
    intro p
    have sent : (State.start procs).bytesSent p = 0 := Finset.sum_const_zero
    have received : (State.start procs).bytesReceived p = 0 := Finset.sum_const_zero
    rw [sent, received]
    exact guarantee p
  have last := run.metered start p
  rwa [ended] at last

end Metered

/-! ## Peers -/

section Talks

variable {P K β α γ : Type} {peer : P → Prop}

/-- All that the program writes or reads goes to or comes from peers. -/
def Proc.Talks (peer : P → Prop) : Proc P K β α → Prop
  | .ret _ => True
  | .abort => True
  | .send q _ _ next => peer q ∧ next.Talks peer
  | .recv q _ _ next => peer q ∧ ∀ bs, (next bs).Talks peer

theorem Proc.Talks.bind {m : Proc P K β α} {f : α → Proc P K β γ} (first : m.Talks peer)
    (second : ∀ a, (f a).Talks peer) : (m >>= f).Talks peer := by
  induction m with
  | ret a => exact second a
  | abort => exact trivial
  | send target kind bytes next ih => exact ⟨first.1, ih first.2⟩
  | recv source kind len next ih => exact ⟨first.1, fun bs => ih bs (first.2 bs)⟩

variable {R : P → Type} [DecidableEq P] {peers : P → P → Prop} {s s1 : State P K β R} {p : P}

/-- The programs that are left talk to peers only, and so do the logs. -/
structure Spoken (peers : P → P → Prop) (s : State P K β R) : Prop where
  procs : ∀ p, (s.procs p).Talks (peers p)
  sent : ∀ p q, s.sent (p, q) ≠ [] → peers p q
  received : ∀ p q, s.received (q, p) ≠ [] → peers p q

theorem Proc.Talks.update {next : Proc P K β (R p)} (spoken : ∀ p, (s.procs p).Talks (peers p))
    (talks : next.Talks (peers p)) (p' : P) :
    (Function.update s.procs p next p').Talks (peers p') := by
  by_cases same : p' = p
  · subst same
    rw [Function.update_self]
    exact talks
  · rw [Function.update_of_ne same]
    exact spoken p'

/-- A log to which one field is added. -/
theorem update_ne_nil {C : Type} [DecidableEq C] {log : C → List (Field K β)} {c d : C}
    {fields : List (Field K β)} (nonempty : Function.update log c fields d ≠ []) :
    d = c ∨ log d ≠ [] := by
  by_cases same : d = c
  · exact .inl same
  · rw [Function.update_of_ne same] at nonempty
    exact .inr nonempty

theorem Step.spoken (step : Step s p s1) (spoken : Spoken peers s) : Spoken peers s1 := by
  have before := spoken.procs p
  cases step with
  | @send q k bs next now =>
    rw [now] at before
    refine ⟨Proc.Talks.update spoken.procs before.2, fun a b logged => ?_, spoken.received⟩
    rcases update_ne_nil logged with same | logged
    · cases same
      exact before.1
    · exact spoken.sent a b logged
  | @recv q k n bs rest next now ready len =>
    rw [now] at before
    refine ⟨Proc.Talks.update spoken.procs (before.2 bs), spoken.sent, fun a b logged => ?_⟩
    rcases update_ne_nil logged with same | logged
    · cases same
      exact before.1
    · exact spoken.received a b logged

/-- Programs that talk to peers only leave the other channels alone. -/
theorem Reaches.spoken {procs : (p : P) → Proc P K β (R p)}
    (run : Reaches (State.start procs) s) (talks : ∀ p, (procs p).Talks (peers p)) :
    Spoken peers s := by
  induction run with
  | refl => exact ⟨talks, fun _ _ logged => (logged rfl).elim, fun _ _ logged => (logged rfl).elim⟩
  | tail _ step ih =>
    obtain ⟨p, step⟩ := step
    exact step.spoken ih

end Talks

end Network
