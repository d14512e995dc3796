import DpfPir.Network

/-!
# Channels of limited capacity

The programs of a network, over channels that hold a limited number of bytes. A write
waits until there is room for its next byte, and a read takes the bytes as they come.

Results:
1. `Run.rest`: when steps commute and one run ends, all runs do, after the same number of
   steps and in the same state.
2. `Bounded.Step.comm`: steps of different parties commute, whatever the capacities are.
3. `Handshakes.meets`, `Bounded.completes`: when the programs can run without channels,
   every write at the same time as its read, they can also run over channels without limits
   and over channels that hold only one byte.
4. `Bounded.ends`: then every run over limited channels ends with the same results.
-/

namespace Network

/-! ## Counted runs -/

section Runs

variable {α : Type} {r : α → α → Prop}

/-- A run of `n` steps. -/
inductive Run (r : α → α → Prop) : Nat → α → α → Prop where
  | refl (a : α) : Run r 0 a a
  | head {n : Nat} {a b c : α} (step : r a b) (more : Run r n b c) : Run r (n + 1) a c

/-- Two steps from one state lead to one state or can be completed to one. -/
def Joins (r : α → α → Prop) : Prop :=
  ∀ {a b c}, r a b → r a c → b = c ∨ ∃ d, r b d ∧ r c d

theorem Run.of_reaches {a b : α} (reaches : Relation.ReflTransGen r a b) : ∃ n, Run r n a b := by
  induction reaches using Relation.ReflTransGen.head_induction_on with
  | refl => exact ⟨0, .refl b⟩
  | head step _ ih =>
    obtain ⟨n, run⟩ := ih
    exact ⟨n + 1, .head step run⟩

theorem Run.reaches {n : Nat} {a b : α} (run : Run r n a b) : Relation.ReflTransGen r a b := by
  induction run with
  | refl a => exact .refl
  | head step _ ih => exact ih.head step

/-- When every step lowers a measure, a run has no more steps than the measure allows. -/
theorem Run.length_le {n : Nat} {a b : α} {measure : α → Nat}
    (run : Run r n a b) (lowers : ∀ a b, r a b → measure b < measure a) :
    n + measure b ≤ measure a := by
  induction run with
  | refl a => exact Nat.le_of_eq (Nat.zero_add _)
  | head step _ ih =>
    have lower := lowers _ _ step
    omega

/-- Any first step is the first step of a run to the end. -/
theorem Run.after {n : Nat} {a b last : α} (joins : Joins r) (stuck : ∀ c, ¬ r last c)
    (run : Run r n a last) (step : r a b) : ∃ m, n = m + 1 ∧ Run r m b last := by
  induction run generalizing b with
  | refl a => exact absurd step (stuck b)
  | @head n a c last first more ih =>
    rcases joins step first with same | ⟨d, left, right⟩
    · subst same
      exact ⟨n, rfl, more⟩
    · obtain ⟨m, rfl, rest⟩ := ih stuck right
      exact ⟨m + 1, rfl, .head left rest⟩

/-- When one run ends, every run is the beginning of one that ends there, after the same
number of steps. -/
theorem Run.rest {n m : Nat} {a b last : α} (joins : Joins r) (stuck : ∀ c, ¬ r last c)
    (run : Run r n a last) (other : Run r m a b) : ∃ k, n = m + k ∧ Run r k b last := by
  induction other generalizing n with
  | refl a => exact ⟨n, (Nat.zero_add n).symm, run⟩
  | head step _ ih =>
    obtain ⟨n', rfl, after⟩ := run.after joins stuck step
    obtain ⟨k, rfl, rest⟩ := ih after
    exact ⟨k, Nat.add_right_comm _ _ _, rest⟩

end Runs

/-! ## Runs without channels -/

section Handshakes

variable {P K β α γ : Type} {R : P → Type} [DecidableEq P]
  {procs procs' : (p : P) → Proc P K β (R p)}

/-- One party writes a field while another reads it. -/
inductive Handshake (procs : (p : P) → Proc P K β (R p)) : ((p : P) → Proc P K β (R p)) → Prop
  | meet {p q : P} {k : K} {bs : List β} {next : Proc P K β (R p)}
      {next' : List β → Proc P K β (R q)} (ne : p ≠ q) (nonempty : bs ≠ [])
      (left : procs p = .send q k bs next) (right : procs q = .recv p k bs.length next') :
      Handshake procs (Function.update (Function.update procs p next) q (next' bs))

abbrev Handshakes (procs procs' : (p : P) → Proc P K β (R p)) : Prop :=
  Relation.ReflTransGen Handshake procs procs'

theorem Handshake.meets (shake : Handshake procs procs') : Meets procs procs' := by
  cases shake with
  | @meet p q k bs next next' ne nonempty left right =>
    have emits : Emits q (.send q k bs (.ret ()) : Proc P K β Unit) [⟨k, bs⟩] () :=
      .send (.ret ())
    have absorbs : Absorbs p (.recv p k bs.length .ret : Proc P K β (List β)) [⟨k, bs⟩] bs :=
      .recv rfl (.ret bs)
    have solid : ∀ field ∈ [(⟨k, bs⟩ : Field K β)], field.bytes ≠ [] := by
      intro field mem
      rw [List.mem_singleton.mp mem]
      exact nonempty
    exact @Meets.exchange _ _ _ _ _ _ _ _ _ _ ne _ _ (fun _ => next) next' _ _ _ emits absorbs
      solid left right

theorem Handshakes.meets (shakes : Handshakes procs procs') : Meets procs procs' := by
  induction shakes with
  | refl => exact Meets.refl procs
  | tail _ shake ih => exact ih.trans shake.meets

/-- A writer and a reader that agree on the fields run past each other. -/
theorem Handshakes.exchange {p q : P} (ne : p ≠ q) {m : Proc P K β α} {m' : Proc P K β γ}
    {f : α → Proc P K β (R p)} {g : γ → Proc P K β (R q)} {fields : List (Field K β)} {a : α}
    {b : γ} (emits : Emits q m fields a) (absorbs : Absorbs p m' fields b)
    (nonempty : ∀ field ∈ fields, field.bytes ≠ []) (left : procs p = m >>= f)
    (right : procs q = m' >>= g) :
    Handshakes procs (Function.update (Function.update procs p (f a)) q (g b)) := by
  induction emits generalizing procs m' with
  | ret a =>
    cases absorbs with
    | ret b =>
      have same : Function.update procs p (f a) = procs :=
        Function.update_eq_self_iff.mpr left.symm
      rw [same, Function.update_eq_self_iff.mpr right.symm]
  | @send k bs next fields a more ih =>
    cases absorbs with
    | @recv _ _ _ next' _ _ len more' =>
      subst len
      have shake := Handshake.meet ne (nonempty _ List.mem_cons_self) left right
      refine Relation.ReflTransGen.head shake ?_
      have rest : Handshakes
          (Function.update (Function.update procs p (next >>= f)) q (next' bs >>= g)) _ :=
        ih more' (fun field mem => nonempty field (List.mem_cons_of_mem _ mem))
          ((Function.update_of_ne ne _ _).trans (Function.update_self _ _ _))
          (Function.update_self _ _ _)
      rw [Function.update_comm ne.symm, Function.update_idem, Function.update_idem] at rest
      exact rest

end Handshakes

/-! ## The network -/

namespace Bounded

variable {P K β : Type} {R : P → Type}

/-- What a party is about to do, with its program and its receive buffer afterwards. -/
inductive Move (P β ρ : Type) where
  | stop
  | silent (own : ρ)
  | put (q : P) (b : β) (own : ρ)
  | take (q : P) (own : β → ρ)

/-- The next move of a party. What is left of the field that it writes is in its program,
what it has of the field that it reads is in the buffer. -/
def move {ρ : Type} : Proc P K β ρ × List β → Move P β (Proc P K β ρ × List β)
  | (.ret _, _) => .stop
  | (.abort, _) => .stop
  | (.send _ _ [] next, buffer) => .silent (next, buffer)
  | (.send q k (b :: bs) next, buffer) => .put q b (.send q k bs next, buffer)
  | (.recv q k n next, buffer) =>
    if buffer.length < n then .take q fun b => (.recv q k n next, buffer ++ [b])
    else .silent (next buffer, [])

/-- The programs with their receive buffers, and the bytes in flight. -/
@[ext] structure State (P K β : Type) (R : P → Type) where
  own : (p : P) → Proc P K β (R p) × List β
  channel : P × P → List β

/-- All channels and buffers are empty. -/
def State.idle (procs : (p : P) → Proc P K β (R p)) : State P K β R where
  own p := (procs p, [])
  channel _ := []

variable [DecidableEq P]

/-- The state after `p` has moved on its own. -/
def State.after (s : State P K β R) (p : P) (own : Proc P K β (R p) × List β) : State P K β R :=
  { s with own := Function.update s.own p own }

/-- The state after `p` has moved and changed the channel `c`. -/
def State.afterOn (s : State P K β R) (p : P) (own : Proc P K β (R p) × List β) (c : P × P)
    (bytes : List β) : State P K β R where
  own := Function.update s.own p own
  channel := Function.update s.channel c bytes

/-- A step of party `p`, over channels of the given capacities. -/
inductive Step (capacity : P × P → Nat) (s : State P K β R) (p : P) : State P K β R → Prop where
  | silent {own : Proc P K β (R p) × List β} (now : move (s.own p) = .silent own) :
    Step capacity s p (s.after p own)
  | put {q : P} {b : β} {own : Proc P K β (R p) × List β} (now : move (s.own p) = .put q b own)
    (room : (s.channel (p, q)).length < capacity (p, q)) :
    Step capacity s p (s.afterOn p own (p, q) (s.channel (p, q) ++ [b]))
  | take {q : P} {b : β} {rest : List β} {own : β → Proc P K β (R p) × List β}
    (now : move (s.own p) = .take q own) (ready : s.channel (q, p) = b :: rest) :
    Step capacity s p (s.afterOn p (own b) (q, p) rest)

/-- A step of any party. -/
def Steps (capacity : P × P → Nat) (s s' : State P K β R) : Prop := ∃ p, Step capacity s p s'

/-- No party can go on. -/
def Stuck (capacity : P × P → Nat) (s : State P K β R) : Prop := ∀ s', ¬ Steps capacity s s'

variable {capacity : P × P → Nat} {s s1 s2 : State P K β R} {p q : P}

/-! ## Steps commute -/

theorem Step.deterministic (h1 : Step capacity s p s1) (h2 : Step capacity s p s2) : s1 = s2 := by
  cases h1 with
  | silent now1 =>
    cases h2 with
    | silent now2 => cases now1.symm.trans now2; rfl
    | put now2 => cases now1.symm.trans now2
    | take now2 => cases now1.symm.trans now2
  | put now1 =>
    cases h2 with
    | silent now2 => cases now1.symm.trans now2
    | put now2 => cases now1.symm.trans now2; rfl
    | take now2 => cases now1.symm.trans now2
  | take now1 ready1 =>
    cases h2 with
    | silent now2 => cases now1.symm.trans now2
    | put now2 => cases now1.symm.trans now2
    | take now2 ready2 =>
      cases now1.symm.trans now2
      cases ready1.symm.trans ready2
      rfl

section Commute

variable {o : Proc P K β (R p) × List β} {o' : Proc P K β (R q) × List β} {c c' : P × P}
  {bytes bytes' : List β}

theorem after_after (ne : p ≠ q) : (s.after p o).after q o' = (s.after q o').after p o :=
  State.ext (Function.update_comm ne _ _ _) rfl

theorem after_afterOn (ne : p ≠ q) :
    (s.after p o).afterOn q o' c bytes = (s.afterOn q o' c bytes).after p o :=
  State.ext (Function.update_comm ne _ _ _) rfl

theorem afterOn_afterOn (ne : p ≠ q) (other : c ≠ c') :
    (s.afterOn p o c bytes).afterOn q o' c' bytes' =
      (s.afterOn q o' c' bytes').afterOn p o c bytes :=
  State.ext (Function.update_comm ne _ _ _) (Function.update_comm other _ _ _)

variable {x : Move P β (Proc P K β (R q) × List β)}

theorem move_after (ne : p ≠ q) (now : move (s.own q) = x) : move ((s.after p o).own q) = x := by
  show move (Function.update s.own p o q) = x
  rw [Function.update_of_ne ne.symm]
  exact now

theorem move_afterOn (ne : p ≠ q) (now : move (s.own q) = x) :
    move ((s.afterOn p o c bytes).own q) = x := move_after ne now

theorem channel_afterOn (other : c ≠ c') : (s.afterOn p o c bytes).channel c' = s.channel c' :=
  Function.update_of_ne other.symm _ _

theorem Step.silent_comm (ne : p ≠ q) (now : move (s.own p) = .silent o)
    (step : Step capacity s q s2) :
    ∃ s', Step capacity (s.after p o) q s' ∧ Step capacity s2 p s' := by
  cases step with
  | silent now2 =>
    refine ⟨_, .silent (move_after ne now2), ?_⟩
    rw [after_after ne]
    exact .silent (move_after ne.symm now)
  | put now2 room2 =>
    refine ⟨_, .put (move_after ne now2) room2, ?_⟩
    rw [after_afterOn ne]
    exact .silent (move_afterOn ne.symm now)
  | take now2 ready2 =>
    refine ⟨_, .take (move_after ne now2) ready2, ?_⟩
    rw [after_afterOn ne]
    exact .silent (move_afterOn ne.symm now)

/-- A write leaves what there is to read, and a read only makes room. -/
theorem Step.put_take_comm {a b : P} {x y : β} {rest : List β}
    {own : β → Proc P K β (R q) × List β} (ne : p ≠ q) (now : move (s.own p) = .put a x o)
    (room : (s.channel (p, a)).length < capacity (p, a)) (now2 : move (s.own q) = .take b own)
    (ready2 : s.channel (b, q) = y :: rest) :
    ∃ s', Step capacity (s.afterOn p o (p, a) (s.channel (p, a) ++ [x])) q s' ∧
      Step capacity (s.afterOn q (own y) (b, q) rest) p s' := by
  by_cases same : ((p, a) : P × P) = (b, q)
  · obtain ⟨rfl, rfl⟩ := Prod.mk.inj same
    rw [ready2, List.length_cons] at room
    have ready : (s.afterOn p o (p, a) (s.channel (p, a) ++ [x])).channel (p, a) =
        y :: (rest ++ [x]) := by
      show Function.update s.channel (p, a) _ (p, a) = _
      rw [Function.update_self, ready2]
      rfl
    have left : (s.afterOn a (own y) (p, a) rest).channel (p, a) = rest :=
      Function.update_self _ _ _
    refine ⟨_, .take (move_afterOn ne now2) ready, ?_⟩
    have put : Step capacity (s.afterOn a (own y) (p, a) rest) p _ :=
      .put (move_afterOn ne.symm now) (by rw [left]; omega)
    rw [left] at put
    have meet : (s.afterOn p o (p, a) (s.channel (p, a) ++ [x])).afterOn a (own y) (p, a)
        (rest ++ [x]) = (s.afterOn a (own y) (p, a) rest).afterOn p o (p, a) (rest ++ [x]) := by
      refine State.ext (Function.update_comm ne _ _ _) ?_
      simp only [State.afterOn, Function.update_idem]
    rw [meet]
    exact put
  · refine ⟨_, .take (move_afterOn ne now2) ((channel_afterOn same).trans ready2), ?_⟩
    rw [afterOn_afterOn ne same]
    have kept : (s.afterOn q (own y) (b, q) rest).channel (p, a) = s.channel (p, a) :=
      channel_afterOn (Ne.symm same)
    rw [← kept] at room ⊢
    exact .put (move_afterOn ne.symm now) room

/-- Two parties never write to one channel. -/
theorem Step.put_comm {a b : P} {x y : β} (ne : p ≠ q) (now : move (s.own p) = .put a x o)
    (room : (s.channel (p, a)).length < capacity (p, a)) (now2 : move (s.own q) = .put b y o')
    (room2 : (s.channel (q, b)).length < capacity (q, b)) :
    ∃ s', Step capacity (s.afterOn p o (p, a) (s.channel (p, a) ++ [x])) q s' ∧
      Step capacity (s.afterOn q o' (q, b) (s.channel (q, b) ++ [y])) p s' := by
  have other : ((p, a) : P × P) ≠ (q, b) := fun same => ne (Prod.mk.inj same).1
  have kept : (s.afterOn p o (p, a) (s.channel (p, a) ++ [x])).channel (q, b) =
      s.channel (q, b) := channel_afterOn other
  have kept' : (s.afterOn q o' (q, b) (s.channel (q, b) ++ [y])).channel (p, a) =
      s.channel (p, a) := channel_afterOn other.symm
  refine ⟨_, .put (move_afterOn ne now2) (by rwa [kept]), ?_⟩
  rw [kept, afterOn_afterOn ne other]
  have put : Step capacity (s.afterOn q o' (q, b) (s.channel (q, b) ++ [y])) p _ :=
    .put (move_afterOn ne.symm now) (by rwa [kept'])
  rwa [kept'] at put

/-- Two parties never read from one channel. -/
theorem Step.take_comm {a b : P} {x y : β} {rest rest' : List β}
    {own : β → Proc P K β (R p) × List β} {own' : β → Proc P K β (R q) × List β} (ne : p ≠ q)
    (now : move (s.own p) = .take a own) (ready : s.channel (a, p) = x :: rest)
    (now2 : move (s.own q) = .take b own') (ready2 : s.channel (b, q) = y :: rest') :
    ∃ s', Step capacity (s.afterOn p (own x) (a, p) rest) q s' ∧
      Step capacity (s.afterOn q (own' y) (b, q) rest') p s' := by
  have other : ((a, p) : P × P) ≠ (b, q) := fun same => ne (Prod.mk.inj same).2
  refine ⟨_, .take (move_afterOn ne now2) ((channel_afterOn other).trans ready2), ?_⟩
  rw [afterOn_afterOn ne other]
  exact .take (move_afterOn ne.symm now) ((channel_afterOn other.symm).trans ready)

end Commute

/-- Steps of two parties can be taken in either order. -/
theorem Step.comm (ne : p ≠ q) (h1 : Step capacity s p s1) (h2 : Step capacity s q s2) :
    ∃ s', Step capacity s1 q s' ∧ Step capacity s2 p s' := by
  cases h1 with
  | silent now1 => exact Step.silent_comm ne now1 h2
  | put now1 room1 =>
    cases h2 with
    | silent now2 =>
      obtain ⟨s', left, right⟩ := Step.silent_comm ne.symm now2 (.put now1 room1)
      exact ⟨s', right, left⟩
    | put now2 room2 => exact Step.put_comm ne now1 room1 now2 room2
    | take now2 ready2 => exact Step.put_take_comm ne now1 room1 now2 ready2
  | take now1 ready1 =>
    cases h2 with
    | silent now2 =>
      obtain ⟨s', left, right⟩ := Step.silent_comm ne.symm now2 (.take now1 ready1)
      exact ⟨s', right, left⟩
    | put now2 room2 =>
      obtain ⟨s', left, right⟩ := Step.put_take_comm ne.symm now2 room2 now1 ready1
      exact ⟨s', right, left⟩
    | take now2 ready2 => exact Step.take_comm ne now1 ready1 now2 ready2

theorem steps_join : Joins (Steps (R := R) (P := P) (K := K) (β := β) capacity) := by
  intro s s1 s2 h1 h2
  obtain ⟨p, step1⟩ := h1
  obtain ⟨q, step2⟩ := h2
  by_cases same : p = q
  · subst same
    exact .inl (step1.deterministic step2)
  · obtain ⟨s', left, right⟩ := Step.comm same step1 step2
    exact .inr ⟨s', ⟨q, left⟩, p, right⟩

/-- A state in which all programs have returned. -/
theorem stuck_of_ret {result : (p : P) → R p} (ended : ∀ p, (s.own p).1 = .ret (result p)) :
    Stuck capacity s := by
  have stops (p : P) : move (s.own p) = .stop := by
    have ret := ended p
    cases own : s.own p with
    | mk proc buffer =>
      rw [own] at ret
      cases ret
      rfl
  rintro s' ⟨p, step⟩
  cases step with
  | silent now => cases (stops p).symm.trans now
  | put now => cases (stops p).symm.trans now
  | take now => cases (stops p).symm.trans now

/-! ## Channels of one byte -/

section Capacity

variable {procs procs' : (p : P) → Proc P K β (R p)}

/-- A field crosses an empty channel byte by byte. -/
theorem crosses {k : K} {bs buffer : List β} {n : Nat} {next : Proc P K β (R p)}
    {next' : List β → Proc P K β (R q)} (ne : p ≠ q) (room : 0 < capacity (p, q))
    (left : s.own p = (.send q k bs next, [])) (right : s.own q = (.recv p k n next', buffer))
    (len : buffer.length + bs.length = n) (empty : s.channel (p, q) = []) :
    Relation.ReflTransGen (Steps capacity) s
      ((s.after p (next, [])).after q (next' (buffer ++ bs), [])) := by
  induction bs generalizing s buffer with
  | nil =>
    have sent : move (s.own p) = .silent (next, []) := by
      rw [left]
      rfl
    have full : ¬ buffer.length < n := Nat.not_lt.mpr (Nat.le_of_eq len.symm)
    have received : move (s.own q) = .silent (next' buffer, []) := by
      rw [right, move, if_neg full]
    rw [List.append_nil]
    have first : Steps capacity s (s.after p (next, [])) := ⟨p, .silent sent⟩
    exact .head first (.single ⟨q, .silent (move_after ne received)⟩)
  | cons b bs ih =>
    have put : move (s.own p) = .put q b (.send q k bs next, []) := by
      rw [left]
      rfl
    have take : move (s.own q) =
        .take p fun b => ((.recv p k n next' : Proc P K β (R q)), buffer ++ [b]) := by
      have short : buffer.length < n := by
        rw [List.length_cons] at len
        omega
      rw [right, move, if_pos short]
    have first : Steps capacity s (s.afterOn p (.send q k bs next, []) (p, q) [b]) := by
      have step : Step capacity s p _ := .put put (by rwa [empty])
      rw [empty] at step
      exact ⟨p, step⟩
    have second : Steps capacity (s.afterOn p (.send q k bs next, []) (p, q) [b])
        ((s.afterOn p (.send q k bs next, []) (p, q) [b]).afterOn q
          (.recv p k n next', buffer ++ [b]) (p, q) []) :=
      ⟨q, .take (move_afterOn ne take) (Function.update_self _ _ _)⟩
    have len' : (buffer ++ [b]).length + bs.length = n := by
      rw [List.length_append, List.length_singleton, ← len, List.length_cons]
      omega
    have rest : Relation.ReflTransGen (Steps capacity)
        ((s.afterOn p (.send q k bs next, []) (p, q) [b]).afterOn q
          (.recv p k n next', buffer ++ [b]) (p, q) []) _ :=
      ih ((Function.update_of_ne ne _ _).trans (Function.update_self _ _ _))
        (Function.update_self _ _ _) len' (Function.update_self _ _ _)
    have meet : (((s.afterOn p (.send q k bs next, []) (p, q) [b]).afterOn q
        (.recv p k n next', buffer ++ [b]) (p, q) []).after p (next, [])).after q
          (next' (buffer ++ [b] ++ bs), []) =
        (s.after p (next, [])).after q (next' (buffer ++ b :: bs), []) := by
      rw [List.append_assoc, List.singleton_append]
      refine State.ext ?_ ?_
      · simp only [State.after, State.afterOn]
        rw [Function.update_comm ne.symm, Function.update_idem, Function.update_idem]
      · simp only [State.after, State.afterOn, Function.update_idem]
        exact Function.update_eq_self_iff.mpr empty.symm
    rw [← meet]
    exact .head first (.head second rest)

theorem idle_after (next : Proc P K β (R p)) :
    (State.idle procs).after p (next, []) = State.idle (Function.update procs p next) := by
  refine State.ext ?_ rfl
  funext r
  exact (Function.apply_update (fun _ proc => (proc, [])) procs p next r).symm

omit [DecidableEq P] in
theorem idle_own {proc : Proc P K β (R p)} (now : procs p = proc) :
    (State.idle procs).own p = (proc, []) := congrArg (fun proc => (proc, [])) now

/-- Programs that can run without channels can run over channels of at least one byte. -/
theorem completes (room : ∀ c, 0 < capacity c) (shakes : Handshakes procs procs') :
    Relation.ReflTransGen (Steps capacity) (State.idle procs) (State.idle procs') := by
  induction shakes with
  | refl => exact .refl
  | tail _ shake ih =>
    cases shake with
    | @meet p q k bs next next' ne nonempty left right =>
      have crossed := crosses ne (room (p, q)) (idle_own left) (idle_own right)
        (Nat.zero_add _) rfl
      rw [idle_after, idle_after] at crossed
      exact ih.trans crossed

/-- Then every run is the beginning of one that ends with the results, it can only end there,
and it takes no more steps than another. -/
theorem ends {result : (p : P) → R p} (room : ∀ c, 0 < capacity c)
    (shakes : Handshakes procs fun p => .ret (result p)) :
    ∃ n, ∀ m s, Run (Steps capacity) m (State.idle procs) s → m ≤ n ∧
      (∃ s', Relation.ReflTransGen (Steps capacity) s s' ∧ ∀ p, (s'.own p).1 = .ret (result p)) ∧
      (Stuck capacity s → m = n ∧ (∀ p, (s.own p).1 = .ret (result p)) ∧
        ∀ c, s.channel c = []) := by
  obtain ⟨n, run⟩ := Run.of_reaches (completes room shakes)
  have last : Stuck capacity
      (State.idle fun p => .ret (result p) : State P K β R) := stuck_of_ret fun _ => rfl
  refine ⟨n, fun m s other => ?_⟩
  obtain ⟨k, rfl, rest⟩ := run.rest steps_join last other
  refine ⟨Nat.le_add_right m k, ⟨_, rest.reaches, fun _ => rfl⟩, fun stuck => ?_⟩
  cases rest with
  | refl => exact ⟨rfl, fun _ => rfl, fun _ => rfl⟩
  | head step _ => exact absurd step (stuck _)

end Capacity

end Bounded

end Network
