import Mathlib.Logic.Relation
import Mathlib.Logic.Function.Basic
import Mathlib.Data.List.Basic

/-!
# Sequential programs over byte channels

A network of sequential programs, one for each party, connected by unbounded
reliable channels, one for each ordered pair of parties. A program writes and reads
fields: a field has a kind and a string of bytes. The channels carry bytes only.
The state also logs the fields that were written to and read from each channel;
no step looks at the logs.

Results:
1. `Step.diamond`: steps of different parties commute, so the network is confluent
   (`reaches_final`, `stuck_eq_final`): when one run ends in a final state, every
   run can be continued to it, and a stuck state is that state.
2. `received_prefix_sent`: on the way to such a final state every field that was
   read is the field that was written at that point of the channel.
3. `Emits.run_between`, `Absorbs.run_between`: the run rules for a program that only
   writes to one peer, or only reads from one.
-/

namespace Network

/-- A piece of data that is written to a channel at once. -/
@[ext] structure Field (K β : Type) where
  kind : K
  bytes : List β

/-- A sequential program of a party, with a result of type `α`. A program that has
left its defined behaviour is `abort`. -/
inductive Proc (P K β α : Type) : Type where
  | ret (a : α)
  | abort
  | send (target : P) (kind : K) (bytes : List β) (next : Proc P K β α)
  | recv (source : P) (kind : K) (len : Nat) (next : List β → Proc P K β α)

namespace Proc

variable {P K β α γ : Type}

/-- Sequential composition. -/
def bind : Proc P K β α → (α → Proc P K β γ) → Proc P K β γ
  | ret a, f => f a
  | abort, _ => abort
  | send q k bs next, f => send q k bs (next.bind f)
  | recv q k n next, f => recv q k n fun bs => (next bs).bind f

instance : Monad (Proc P K β) where
  pure := ret
  bind := bind

/-- The bytes that a program writes and its result, when all it does is write to `q`. -/
def emit [DecidableEq P] (q : P) : Proc P K β α → Option (α × List β)
  | ret a => some (a, [])
  | abort => none
  | send p _ bs next =>
    if p = q then (next.emit q).map fun result => (result.1, bs ++ result.2) else none
  | recv _ _ _ _ => none

/-- The result of a program on a stream of bytes from `q` and the bytes that it
leaves unread, when all it does is read from `q`. -/
def absorb [DecidableEq P] (q : P) : Proc P K β α → List β → Option (α × List β)
  | ret a, stream => some (a, stream)
  | abort, _ => none
  | send _ _ _ _, _ => none
  | recv p _ n next, stream =>
    if p = q ∧ n ≤ stream.length then (next (stream.take n)).absorb q (stream.drop n) else none

end Proc

/-! ## Fields -/

section Fields

variable {K β : Type}

/-- The bytes of a list of fields. -/
def bytesOf (fields : List (Field K β)) : List β := fields.flatMap Field.bytes

@[simp] theorem bytesOf_nil : bytesOf ([] : List (Field K β)) = [] := rfl

@[simp] theorem bytesOf_cons (field : Field K β) (fields : List (Field K β)) :
    bytesOf (field :: fields) = field.bytes ++ bytesOf fields := rfl

@[simp] theorem bytesOf_append (xs ys : List (Field K β)) :
    bytesOf (xs ++ ys) = bytesOf xs ++ bytesOf ys := by
  rw [bytesOf, List.flatMap_append, bytesOf, bytesOf]

theorem eq_nil_of_bytesOf {fields : List (Field K β)}
    (nonempty : ∀ field ∈ fields, field.bytes ≠ []) (none : bytesOf fields = []) :
    fields = [] := by
  cases fields with
  | nil => rfl
  | cons field fields =>
    rw [bytesOf_cons, List.append_eq_nil_iff] at none
    exact absurd none.1 (nonempty field List.mem_cons_self)

end Fields

/-! ## The network -/

/-- A state of the network: the programs that are left to run, the bytes in flight
on the channel from `p` to `q` at `(p, q)`, and the logs. -/
@[ext] structure State (P K β : Type) (R : P → Type) where
  procs : (p : P) → Proc P K β (R p)
  channel : P × P → List β
  sent : P × P → List (Field K β)
  received : P × P → List (Field K β)

section Steps

variable {P K β : Type} {R : P → Type} [DecidableEq P]

/-- The state after `p` has written `bs` to `q` and goes on with `next`. -/
def State.afterSend (s : State P K β R) (p q : P) (k : K) (bs : List β)
    (next : Proc P K β (R p)) : State P K β R where
  procs := Function.update s.procs p next
  channel := Function.update s.channel (p, q) (s.channel (p, q) ++ bs)
  sent := Function.update s.sent (p, q) (s.sent (p, q) ++ [⟨k, bs⟩])
  received := s.received

/-- The state after `p` has read `bs` from `q`, which leaves `rest` on the channel. -/
def State.afterRecv (s : State P K β R) (p q : P) (k : K) (bs rest : List β)
    (next : Proc P K β (R p)) : State P K β R where
  procs := Function.update s.procs p next
  channel := Function.update s.channel (q, p) rest
  sent := s.sent
  received := Function.update s.received (q, p) (s.received (q, p) ++ [⟨k, bs⟩])

/-- A step of party `p`. A read waits until all its bytes are there. -/
inductive Step (s : State P K β R) (p : P) : State P K β R → Prop where
  | send {q : P} {k : K} {bs : List β} {next : Proc P K β (R p)}
      (now : s.procs p = .send q k bs next) : Step s p (s.afterSend p q k bs next)
  | recv {q : P} {k : K} {n : Nat} {bs rest : List β} {next : List β → Proc P K β (R p)}
      (now : s.procs p = .recv q k n next) (ready : s.channel (q, p) = bs ++ rest)
      (len : bs.length = n) : Step s p (s.afterRecv p q k bs rest (next bs))

theorem Step.recv_eq {s : State P K β R} {p q : P} {k : K} {n : Nat} {bs rest : List β}
    {next : List β → Proc P K β (R p)} {after : Proc P K β (R p)}
    (now : s.procs p = .recv q k n next) (ready : s.channel (q, p) = bs ++ rest)
    (len : bs.length = n) (goes : after = next bs) :
    Step s p (s.afterRecv p q k bs rest after) := by
  subst goes
  exact Step.recv now ready len

/-- A step of any party. -/
def Steps (s s' : State P K β R) : Prop := ∃ p, Step s p s'

/-- The states that some interleaving reaches from `s`. -/
abbrev Reaches (s s' : State P K β R) : Prop := Relation.ReflTransGen Steps s s'

/-- A state in which no party can step. -/
def Stuck (s : State P K β R) : Prop := ∀ s', ¬ Steps s s'

/-- Every program is deterministic. -/
theorem Step.deterministic {s s1 s2 : State P K β R} {p : P} (h1 : Step s p s1)
    (h2 : Step s p s2) : s1 = s2 := by
  cases h1 with
  | send now1 =>
    cases h2 with
    | send now2 =>
      cases now1.symm.trans now2
      rfl
    | recv now2 => cases now1.symm.trans now2
  | recv now1 ready1 len1 =>
    cases h2 with
    | send now2 => cases now1.symm.trans now2
    | recv now2 ready2 len2 =>
      cases now1.symm.trans now2
      obtain ⟨rfl, rfl⟩ := List.append_inj (ready1.symm.trans ready2) (len1.trans len2.symm)
      rfl

/-! ## Steps of different parties commute -/

section Commute

variable {s : State P K β R} {p q a b : P} {k k' : K} {bs bs' rest rest' : List β}
  {next : Proc P K β (R p)} {next' : Proc P K β (R q)}

theorem afterSend_afterSend (ne : p ≠ q) :
    (s.afterSend p a k bs next).afterSend q b k' bs' next' =
      (s.afterSend q b k' bs' next').afterSend p a k bs next := by
  have key : ((p, a) : P × P) ≠ (q, b) := fun same => ne (Prod.mk.inj same).1
  refine State.ext (Function.update_comm ne _ _ _) ?_ ?_ rfl
  · simp only [State.afterSend, Function.update_of_ne key, Function.update_of_ne key.symm]
    exact Function.update_comm key _ _ _
  · simp only [State.afterSend, Function.update_of_ne key, Function.update_of_ne key.symm]
    exact Function.update_comm key _ _ _

theorem afterRecv_afterRecv (ne : p ≠ q) :
    (s.afterRecv p a k bs rest next).afterRecv q b k' bs' rest' next' =
      (s.afterRecv q b k' bs' rest' next').afterRecv p a k bs rest next := by
  have key : ((a, p) : P × P) ≠ (b, q) := fun same => ne (Prod.mk.inj same).2
  refine State.ext (Function.update_comm ne _ _ _) (Function.update_comm key _ _ _) rfl ?_
  simp only [State.afterRecv, Function.update_of_ne key, Function.update_of_ne key.symm]
  exact Function.update_comm key _ _ _

/-- A write and a read of different channels. -/
theorem afterSend_afterRecv (ne : p ≠ q) (key : ((p, a) : P × P) ≠ (b, q)) :
    (s.afterSend p a k bs next).afterRecv q b k' bs' rest' next' =
      (s.afterRecv q b k' bs' rest' next').afterSend p a k bs next := by
  refine State.ext (Function.update_comm ne _ _ _) ?_ rfl rfl
  simp only [State.afterSend, State.afterRecv, Function.update_of_ne key]
  exact Function.update_comm key _ _ _

/-- A write to the channel that is being read. -/
theorem afterSend_afterRecv_same (ne : p ≠ q) :
    (s.afterSend p q k bs next).afterRecv q p k' bs' (rest' ++ bs) next' =
      (s.afterRecv q p k' bs' rest' next').afterSend p q k bs next := by
  refine State.ext (Function.update_comm ne _ _ _) ?_ rfl rfl
  simp only [State.afterSend, State.afterRecv, Function.update_self, Function.update_idem]

theorem Step.send_recv_comm (ne : p ≠ q) {n : Nat} {next' : List β → Proc P K β (R q)}
    (now : s.procs p = .send a k bs next) (now' : s.procs q = .recv b k' n next')
    (ready : s.channel (b, q) = bs' ++ rest') (len : bs'.length = n) :
    ∃ s', Step (s.afterSend p a k bs next) q s' ∧
      Step (s.afterRecv q b k' bs' rest' (next' bs')) p s' := by
  have later : (s.afterRecv q b k' bs' rest' (next' bs')).procs p = .send a k bs next :=
    (Function.update_of_ne ne _ _).trans now
  have later' : (s.afterSend p a k bs next).procs q = .recv b k' n next' :=
    (Function.update_of_ne ne.symm _ _).trans now'
  refine ⟨_, ?_, Step.send later⟩
  -- the write may go to the channel that is being read: it only adds to the rest
  by_cases key : ((p, a) : P × P) = (b, q)
  · obtain ⟨rfl, rfl⟩ := Prod.mk.inj key
    rw [← afterSend_afterRecv_same ne]
    refine Step.recv later' ?_ len
    show Function.update s.channel (p, a) _ (p, a) = _
    rw [Function.update_self, ready, List.append_assoc]
  · rw [← afterSend_afterRecv ne key]
    refine Step.recv later' ?_ len
    exact (Function.update_of_ne (Ne.symm key) _ _).trans ready

end Commute

variable {s s1 s2 : State P K β R}

/-- Steps of two parties can be taken in either order. -/
theorem Step.comm {p q : P} (ne : p ≠ q) (h1 : Step s p s1) (h2 : Step s q s2) :
    ∃ s', Step s1 q s' ∧ Step s2 p s' := by
  cases h1 with
  | send now1 =>
    cases h2 with
    | send now2 =>
      refine ⟨_, Step.send ((Function.update_of_ne ne.symm _ _).trans now2), ?_⟩
      rw [afterSend_afterSend ne]
      exact Step.send ((Function.update_of_ne ne _ _).trans now1)
    | recv now2 ready2 len2 => exact Step.send_recv_comm ne now1 now2 ready2 len2
  | recv now1 ready1 len1 =>
    cases h2 with
    | send now2 =>
      obtain ⟨s', left, right⟩ := Step.send_recv_comm ne.symm now2 now1 ready1 len1
      exact ⟨s', right, left⟩
    | recv now2 ready2 len2 =>
      rename_i b _ _ _ _ _
      refine ⟨_, Step.recv ((Function.update_of_ne ne.symm _ _).trans now2)
        ((Function.update_of_ne ?_ _ _).trans ready2) len2, ?_⟩
      · exact fun same => ne (Prod.mk.inj same).2.symm
      · rw [afterRecv_afterRecv ne]
        refine Step.recv ((Function.update_of_ne ne _ _).trans now1)
          ((Function.update_of_ne ?_ _ _).trans ready1) len1
        exact fun same => ne (Prod.mk.inj same).2

/-- Two steps from one state lead to one state or can be completed to one. -/
theorem Step.diamond (h1 : Steps s s1) (h2 : Steps s s2) :
    s1 = s2 ∨ ∃ s', Steps s1 s' ∧ Steps s2 s' := by
  obtain ⟨p, step1⟩ := h1
  obtain ⟨q, step2⟩ := h2
  by_cases same : p = q
  · subst same
    exact Or.inl (step1.deterministic step2)
  · obtain ⟨s', left, right⟩ := Step.comm same step1 step2
    exact Or.inr ⟨s', ⟨q, left⟩, p, right⟩

/-! ## Runs to a final state -/

/-- When one interleaving ends in a stuck state, every reachable state can still
reach it. -/
theorem reaches_final {final : State P K β R} (run : Reaches s final) (stuck : Stuck final)
    (h : Reaches s s1) : Reaches s1 final := by
  have join := Relation.church_rosser (r := Steps (P := P) (K := K) (R := R)) (fun a b c hb hc => by
    cases Step.diamond hb hc with
    | inl same => exact ⟨c, same ▸ Relation.ReflGen.refl, Relation.ReflTransGen.refl⟩
    | inr meet =>
      obtain ⟨d, left, right⟩ := meet
      exact ⟨d, Relation.ReflGen.single left, Relation.ReflTransGen.single right⟩) h run
  -- the final state has no successor, so the two runs join there
  obtain ⟨d, left, right⟩ := join
  cases right.cases_head with
  | inl same => rw [same]; exact left
  | inr more =>
    obtain ⟨e, step, -⟩ := more
    exact absurd step (stuck e)

/-- Every interleaving that can go on no further has reached the same state. -/
theorem stuck_eq_final {final : State P K β R} (run : Reaches s final) (stuck : Stuck final)
    (h : Reaches s s1) (stuck1 : Stuck s1) : s1 = final := by
  cases (reaches_final run stuck h).cases_head with
  | inl same => exact same
  | inr more =>
    obtain ⟨e, step, -⟩ := more
    exact absurd step (stuck1 e)

/-- A state in which all programs have returned. -/
theorem stuck_of_ret {result : (p : P) → R p} (ended : ∀ p, s.procs p = .ret (result p)) :
    Stuck s := by
  rintro s' ⟨p, step⟩
  cases step with
  | send now => cases (ended p).symm.trans now
  | recv now => cases (ended p).symm.trans now

/-! ## Logs -/

/-- The bytes on every channel are what was written and not yet read. -/
def Accounted (s : State P K β R) : Prop :=
  ∀ c, bytesOf (s.sent c) = bytesOf (s.received c) ++ s.channel c

theorem Step.accounted {p : P} (step : Step s p s1) (h : Accounted s) : Accounted s1 := by
  intro c
  cases step with
  | @send q k bs next now =>
    by_cases same : c = (p, q)
    · subst same
      simp only [State.afterSend, Function.update_self, bytesOf_append, bytesOf_cons, bytesOf_nil,
        List.append_nil, h (p, q), List.append_assoc]
    · simp only [State.afterSend, Function.update_of_ne same]
      exact h c
  | @recv q k n bs rest next now ready len =>
    by_cases same : c = (q, p)
    · subst same
      simp only [State.afterRecv, Function.update_self, bytesOf_append, bytesOf_cons, bytesOf_nil,
        List.append_nil, h (q, p), ready, List.append_assoc]
    · simp only [State.afterRecv, Function.update_of_ne same]
      exact h c

/-- The logs only grow. -/
theorem Step.grows {p : P} (step : Step s p s1) (c : P × P) :
    s.sent c <+: s1.sent c ∧ s.received c <+: s1.received c := by
  cases step with
  | @send q k bs next now =>
    refine ⟨?_, List.prefix_rfl⟩
    by_cases same : c = (p, q)
    · subst same
      simp only [State.afterSend, Function.update_self]
      exact List.prefix_append _ _
    · simp only [State.afterSend, Function.update_of_ne same]
      exact List.prefix_rfl
  | @recv q k n bs rest next now ready len =>
    refine ⟨List.prefix_rfl, ?_⟩
    by_cases same : c = (q, p)
    · subst same
      simp only [State.afterRecv, Function.update_self]
      exact List.prefix_append _ _
    · simp only [State.afterRecv, Function.update_of_ne same]
      exact List.prefix_rfl

theorem Reaches.accounted (run : Reaches s s1) (h : Accounted s) : Accounted s1 := by
  induction run with
  | refl => exact h
  | tail _ step ih =>
    obtain ⟨p, step⟩ := step
    exact step.accounted ih

theorem Reaches.grows (run : Reaches s s1) (c : P × P) :
    s.sent c <+: s1.sent c ∧ s.received c <+: s1.received c := by
  induction run with
  | refl => exact ⟨List.prefix_rfl, List.prefix_rfl⟩
  | tail _ step ih =>
    obtain ⟨p, step⟩ := step
    exact ⟨ih.1.trans (step.grows c).1, ih.2.trans (step.grows c).2⟩

/-- On the way to a final state that has read every field as it was written, each
field that was read is the field that was written at that point of the channel. -/
theorem received_prefix_sent {final : State P K β R} (run : Reaches s1 final)
    (accounted : Accounted s1) {c : P × P} (matched : final.received c = final.sent c)
    (nonempty : ∀ field ∈ final.sent c, field.bytes ≠ []) : s1.received c <+: s1.sent c := by
  obtain ⟨sent, received⟩ := Reaches.grows run c
  rw [matched] at received
  cases List.prefix_or_prefix_of_prefix received sent with
  | inl done => exact done
  | inr ahead =>
    -- more fields read than written: their bytes would have to be empty
    obtain ⟨extra, longer⟩ := ahead
    have bytes := accounted c
    rw [← longer, bytesOf_append, List.append_assoc, List.self_eq_append_right,
      List.append_eq_nil_iff] at bytes
    have none : extra = [] := by
      refine eq_nil_of_bytesOf (fun field mem => nonempty field ?_) bytes.1
      refine received.subset ?_
      rw [← longer]
      exact List.mem_append_right _ mem
    rw [none, List.append_nil] at longer
    exact ⟨[], (List.append_nil _).trans longer.symm⟩

end Steps

/-! ## Programs that talk to one peer -/

section OnePeer

variable {P K β α γ : Type}

/-- All that the program does is to write the fields to `q` and to return `a`. -/
inductive Emits (q : P) : Proc P K β α → List (Field K β) → α → Prop where
  | ret (a : α) : Emits q (.ret a) [] a
  | send {k : K} {bs : List β} {next : Proc P K β α} {fields : List (Field K β)} {a : α}
      (more : Emits q next fields a) : Emits q (.send q k bs next) (⟨k, bs⟩ :: fields) a

/-- The program reads the fields from `q`, if `q` writes these, and returns `a`. -/
inductive Absorbs (q : P) : Proc P K β α → List (Field K β) → α → Prop where
  | ret (a : α) : Absorbs q (.ret a) [] a
  | recv {k : K} {n : Nat} {bs : List β} {next : List β → Proc P K β α}
      {fields : List (Field K β)} {a : α} (len : bs.length = n)
      (more : Absorbs q (next bs) fields a) :
      Absorbs q (.recv q k n next) (⟨k, bs⟩ :: fields) a

variable {q : P} {m : Proc P K β α} {f : α → Proc P K β γ} {fields fields' : List (Field K β)}
  {a : α} {b : γ}

theorem Emits.bind (first : Emits q m fields a) (second : Emits q (f a) fields' b) :
    Emits q (m >>= f) (fields ++ fields') b := by
  induction first with
  | ret a => exact second
  | send _ ih => exact Emits.send (ih second)

theorem Absorbs.bind (first : Absorbs q m fields a) (second : Absorbs q (f a) fields' b) :
    Absorbs q (m >>= f) (fields ++ fields') b := by
  induction first with
  | ret a => exact second
  | recv len _ ih => exact Absorbs.recv len (ih second)

variable [DecidableEq P]

theorem Emits.emit_eq (h : Emits q m fields a) : m.emit q = some (a, bytesOf fields) := by
  induction h with
  | ret a => rfl
  | send _ ih =>
    rw [Proc.emit, if_pos rfl, ih]
    rfl

theorem Absorbs.absorb_eq (h : Absorbs q m fields a) (rest : List β) :
    m.absorb q (bytesOf fields ++ rest) = some (a, rest) := by
  induction h with
  | ret a => rfl
  | recv len _ ih =>
    subst len
    rw [bytesOf_cons, List.append_assoc, Proc.absorb, if_pos ⟨rfl, by simp⟩, List.take_left,
      List.drop_left]
    exact ih

/-! ## Runs field by field -/

variable {R : P → Type} {procs : (p : P) → Proc P K β (R p)}
  {read pending : P × P → List (Field K β)} {p : P}

/-- The state in which the fields `read` have been read from the channels and the
fields `pending` are in flight. -/
def State.flow (procs : (p : P) → Proc P K β (R p)) (read pending : P × P → List (Field K β)) :
    State P K β R where
  procs := procs
  channel c := bytesOf (pending c)
  sent c := read c ++ pending c
  received := read

omit [DecidableEq P] in
theorem State.flow_accounted : Accounted (State.flow procs read pending) :=
  fun c => bytesOf_append (read c) (pending c)

theorem flow_afterSend (k : K) (bs : List β) (next : Proc P K β (R p)) :
    (State.flow procs read pending).afterSend p q k bs next =
      State.flow (Function.update procs p next) read
        (Function.update pending (p, q) (pending (p, q) ++ [⟨k, bs⟩])) := by
  refine State.ext rfl ?_ ?_ rfl
  · funext c
    by_cases same : c = (p, q)
    · subst same
      simp [State.flow, State.afterSend]
    · simp [State.flow, State.afterSend, Function.update_of_ne same]
  · funext c
    by_cases same : c = (p, q)
    · subst same
      simp [State.flow, State.afterSend]
    · simp [State.flow, State.afterSend, Function.update_of_ne same]

theorem flow_afterRecv {k : K} {bs : List β} {rest : List (Field K β)}
    (next : Proc P K β (R p)) (ready : pending (q, p) = ⟨k, bs⟩ :: rest) :
    (State.flow procs read pending).afterRecv p q k bs (bytesOf rest) next =
      State.flow (Function.update procs p next)
        (Function.update read (q, p) (read (q, p) ++ [⟨k, bs⟩]))
        (Function.update pending (q, p) rest) := by
  refine State.ext rfl ?_ ?_ rfl
  · funext c
    by_cases same : c = (q, p)
    · subst same
      simp [State.flow, State.afterRecv]
    · simp [State.flow, State.afterRecv, Function.update_of_ne same]
  · funext c
    by_cases same : c = (q, p)
    · subst same
      simp [State.flow, State.afterRecv, ready]
    · simp [State.flow, State.afterRecv, Function.update_of_ne same]

/-- A program that only writes to one peer can run to its end at once. -/
theorem Emits.run_between {f : α → Proc P K β (R p)} (emits : Emits q m fields a)
    (now : procs p = m >>= f) :
    Reaches (State.flow procs read pending)
      (State.flow (Function.update procs p (f a)) read
        (Function.update pending (p, q) (pending (p, q) ++ fields))) := by
  induction emits generalizing procs pending with
  | ret a =>
    have same : Function.update procs p (f a) = procs := Function.update_eq_self_iff.mpr now.symm
    rw [same, List.append_nil, Function.update_eq_self]
  | @send k bs next fields a more ih =>
    have step : Steps (State.flow procs read pending)
        (State.flow (Function.update procs p (next >>= f)) read
          (Function.update pending (p, q) (pending (p, q) ++ [⟨k, bs⟩]))) := by
      rw [← flow_afterSend]
      exact ⟨p, Step.send now⟩
    have later : Reaches (State.flow (Function.update procs p (next >>= f)) read
        (Function.update pending (p, q) (pending (p, q) ++ [⟨k, bs⟩]))) _ :=
      ih (Function.update_self p (next >>= f) procs)
    rw [Function.update_idem, Function.update_idem, Function.update_self, List.append_assoc] at later
    exact Relation.ReflTransGen.head step later

/-- A program that only reads fields that are in flight can run to its end at once. -/
theorem Absorbs.run_between {f : α → Proc P K β (R p)} {rest : List (Field K β)}
    (absorbs : Absorbs q m fields a) (now : procs p = m >>= f)
    (ready : pending (q, p) = fields ++ rest) :
    Reaches (State.flow procs read pending)
      (State.flow (Function.update procs p (f a))
        (Function.update read (q, p) (read (q, p) ++ fields))
        (Function.update pending (q, p) rest)) := by
  induction absorbs generalizing procs read pending with
  | ret a =>
    have same : Function.update procs p (f a) = procs := Function.update_eq_self_iff.mpr now.symm
    rw [List.nil_append] at ready
    rw [same, List.append_nil, Function.update_eq_self, ← ready, Function.update_eq_self]
  | @recv k n bs next fields a len more ih =>
    have step : Steps (State.flow procs read pending)
        (State.flow (Function.update procs p (next bs >>= f))
          (Function.update read (q, p) (read (q, p) ++ [⟨k, bs⟩]))
          (Function.update pending (q, p) (fields ++ rest))) := by
      have moved : (State.flow procs read pending).afterRecv p q k bs (bytesOf (fields ++ rest))
          (next bs >>= f) = State.flow (Function.update procs p (next bs >>= f))
            (Function.update read (q, p) (read (q, p) ++ [⟨k, bs⟩]))
            (Function.update pending (q, p) (fields ++ rest)) := flow_afterRecv _ ready
      have bytes : bytesOf (pending (q, p)) = bs ++ bytesOf (fields ++ rest) := by
        rw [ready]
        rfl
      rw [← moved]
      exact ⟨p, Step.recv_eq now bytes len rfl⟩
    have later : Reaches (State.flow (Function.update procs p (next bs >>= f))
        (Function.update read (q, p) (read (q, p) ++ [⟨k, bs⟩]))
        (Function.update pending (q, p) (fields ++ rest))) _ :=
      ih (Function.update_self p (next bs >>= f) procs) (Function.update_self _ _ _)
    rw [Function.update_idem, Function.update_idem, Function.update_self, Function.update_idem,
      List.append_assoc] at later
    exact Relation.ReflTransGen.head step later

end OnePeer

/-! ## Networks that meet -/

section Meeting

variable {P K β α γ : Type} {R : P → Type} [DecidableEq P]
  {procs procs' procs'' : (p : P) → Proc P K β (R p)}

/-- Every field on every channel has bytes. -/
def Solid (log : P × P → List (Field K β)) : Prop := ∀ c, ∀ field ∈ log c, field.bytes ≠ []

/-- From empty channels the programs `procs` can run to `procs'` with the channels
empty again. -/
def Meets (procs procs' : (p : P) → Proc P K β (R p)) : Prop :=
  ∀ read, Solid read → ∃ read', Solid read' ∧
    Reaches (State.flow procs read fun _ => []) (State.flow procs' read' fun _ => [])

theorem Meets.refl (procs : (p : P) → Proc P K β (R p)) : Meets procs procs :=
  fun read solid => ⟨read, solid, Relation.ReflTransGen.refl⟩

theorem Meets.trans (first : Meets procs procs') (second : Meets procs' procs'') :
    Meets procs procs'' := by
  intro read solid
  obtain ⟨read', solid', run⟩ := first read solid
  obtain ⟨read'', solid'', run'⟩ := second read' solid'
  exact ⟨read'', solid'', run.trans run'⟩

/-- A writer and a reader that agree on the fields run past each other. -/
theorem Meets.exchange {p q : P} (ne : p ≠ q) {m : Proc P K β α} {m' : Proc P K β γ}
    {f : α → Proc P K β (R p)} {g : γ → Proc P K β (R q)} {fields : List (Field K β)} {a : α} {b : γ}
    (emits : Emits q m fields a) (absorbs : Absorbs p m' fields b)
    (nonempty : ∀ field ∈ fields, field.bytes ≠ []) (left : procs p = m >>= f)
    (right : procs q = m' >>= g) :
    Meets procs (Function.update (Function.update procs p (f a)) q (g b)) := by
  intro read solid
  have written : Reaches (State.flow procs read fun _ => []) _ := emits.run_between left
  have waiting : Function.update procs p (f a) q = m' >>= g :=
    (Function.update_of_ne ne.symm _ _).trans right
  have ready : Function.update (fun _ => []) (p, q) ([] ++ fields) (p, q) = fields ++ [] := by
    rw [Function.update_self, List.nil_append, List.append_nil]
  have taken : Reaches (State.flow (Function.update procs p (f a)) read
      (Function.update (fun _ => []) (p, q) ([] ++ fields))) _ :=
    absorbs.run_between waiting ready
  have empty : Function.update (Function.update (fun _ => []) (p, q) ([] ++ fields)) (p, q) [] =
      (fun _ => [] : P × P → List (Field K β)) := by
    rw [Function.update_idem]
    exact Function.update_eq_self (p, q) fun _ => []
  rw [empty] at taken
  refine ⟨_, ?_, written.trans taken⟩
  intro c field mem
  by_cases same : c = (p, q)
  · rw [same, Function.update_self] at mem
    cases List.mem_append.mp mem with
    | inl old => exact solid (p, q) field old
    | inr new => exact nonempty field new
  · rw [Function.update_of_ne same] at mem
    exact solid c field mem

/-- The state in which all programs start, with empty channels. -/
def State.start (procs : (p : P) → Proc P K β (R p)) : State P K β R :=
  State.flow procs (fun _ => []) fun _ => []

theorem Meets.reaches (meets : Meets procs procs') :
    ∃ s, Reaches (State.start procs) s ∧ s.procs = procs' := by
  obtain ⟨read, -, run⟩ := meets (fun _ => []) fun c field mem => absurd mem List.not_mem_nil
  exact ⟨_, run, rfl⟩

/-- When the programs can meet until all have returned, then on every interleaving
each read returns the field that was written at that point of the channel, the
network can still finish, and it gets stuck only when all programs have returned
their results and all channels are empty. -/
theorem Meets.synchronised {result : (p : P) → R p}
    (meets : Meets procs fun p => .ret (result p)) {s : State P K β R}
    (run : Reaches (State.start procs) s) :
    (∀ c, s.received c <+: s.sent c) ∧
    (∃ s', Reaches s s' ∧ ∀ p, s'.procs p = .ret (result p)) ∧
    (Stuck s → (∀ p, s.procs p = .ret (result p)) ∧ ∀ c, s.channel c = []) := by
  obtain ⟨read, solid, whole⟩ := meets (fun _ => []) fun c field mem => absurd mem List.not_mem_nil
  have ended : Stuck (State.flow (fun p => .ret (result p)) read fun _ => []) :=
    stuck_of_ret fun _ => rfl
  have onwards := reaches_final whole ended run
  refine ⟨fun c => ?_, ⟨_, onwards, fun _ => rfl⟩, fun stuck => ?_⟩
  · have accounted := Reaches.accounted run State.flow_accounted
    refine received_prefix_sent onwards accounted (List.append_nil _).symm fun field mem => ?_
    have logged : field ∈ read c ++ [] := mem
    rw [List.append_nil] at logged
    exact solid c field logged
  · rw [stuck_eq_final whole ended run stuck]
    exact ⟨fun _ => rfl, fun _ => rfl⟩

end Meeting

end Network
