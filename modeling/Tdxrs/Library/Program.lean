import Tdxrs.Library.TransitionSystem

set_option relaxedAutoImplicit false
set_option autoImplicit false

/-!
# Programs over primitive operations

A program is a tree: it is done, or it calls an operation and goes on with the answer. What the
operations do is left open, so that one program can be executed from start to end, by a handler of
its operations, or be run step by step in a state that it shares with an environment.

For the second reading there is a logic. A contract says of each operation what it needs and what it
may do, in terms of a view of the state that the environment leaves alone. A program meets a
contract from a view if every operation that it comes to has what it needs, whatever the answers.
A system all of whose programs meet the contract keeps every property that the operations keep
where they have what they need, however its steps and those of the environment interleave.

## Main definitions

* `Program` — programs, `Program.embed` — programs over more operations.
* `Program.exec` — the execution by a handler.
* `Program.Contract`, `Program.Meets` — contracts, and the programs that meet them.
* `Program.Within` — programs whose operations are all of one kind.
* `Program.System` — a party that runs programs, and its environment.

## Main results

* `Program.exec_bind`, `Program.meets_bind`, `Program.meets_embed` — the rules of composition.
* `Program.System.run_good` — the invariant rule for systems; `Program.System.run_within` — that
  for systems whose programs keep within operations.
-/

/-- A program over the operations `Op`, the answers of which are of the types `Ans`. -/
inductive Program.{u, v} (Op : Type u) (Ans : Op → Type v) (α : Type v) where
  | done (a : α)
  | call (op : Op) (next : Ans op → Program Op Ans α)

namespace Program

universe u v w

variable {Op : Type u} {Ans : Op → Type v} {α β : Type v}

/-- A program and what follows its result. -/
def bind : Program Op Ans α → (α → Program Op Ans β) → Program Op Ans β
  | .done a, rest => rest a
  | .call op next, rest => .call op fun r => (next r).bind rest

instance : Monad (Program Op Ans) where
  pure := .done
  bind := Program.bind

/-- One operation. -/
def perform (op : Op) : Program Op Ans (Ans op) := .call op .done

/-- A program over operations each of which is one of `Op'`. -/
def embed {Op' : Type w} {Ans' : Op' → Type v} (emb : Op → Op')
    (ans : (op : Op) → Ans' (emb op) → Ans op) : Program Op Ans α → Program Op' Ans' α
  | .done a => .done a
  | .call op next => .call (emb op) fun r => (next (ans op r)).embed emb ans

/-! ## Execution by a handler -/

section Exec

variable {σ : Type w} (handle : (op : Op) → σ → Ans op × σ)

/-- The execution of a program by a handler of its operations. -/
def exec : Program Op Ans α → σ → α × σ
  | .done a, s => (a, s)
  | .call op next, s => (next (handle op s).1).exec (handle op s).2

/-- One operation is executed by the handler. -/
lemma exec_perform (op : Op) (s : σ) :
    (perform op : Program Op Ans (Ans op)).exec handle s = handle op s := rfl

/-- A program and what follows it are executed one after the other. -/
theorem exec_bind (p : Program Op Ans α) (rest : α → Program Op Ans β) (s : σ) :
    (p >>= rest).exec handle s = (rest (p.exec handle s).1).exec handle (p.exec handle s).2 := by
  induction p generalizing s with
  | done a => rfl
  | call op next ih => exact ih _ _

end Exec

/-! ## Contracts -/

/-- What the operations need and may do, in terms of a view of the state. -/
structure Contract (Op : Type u) (Ans : Op → Type v) (A : Type w) where
  /-- What must hold before an operation. -/
  needs : Op → A → Prop
  /-- The answers that an operation may give, with the views that it may lead to. -/
  may : (op : Op) → A → Ans op → A → Prop

section Contract

variable {A : Type w} (C : Contract Op Ans A)

/-- From a view, every operation that the program comes to has what it needs, and the program ends
with a result and a view for which `Q` holds. -/
def Meets (Q : α → A → Prop) : Program Op Ans α → A → Prop
  | .done a, v => Q a v
  | .call op next, v => C.needs op v ∧ ∀ r v', C.may op v r v' → Meets Q (next r) v'

variable {C} {Q : α → A → Prop} {v : A}

/-- The rule of consequence. -/
theorem Meets.mono {Q' : α → A → Prop} {p : Program Op Ans α} (h : Meets C Q p v)
    (hQ : ∀ a v, Q a v → Q' a v) : Meets C Q' p v := by
  induction p generalizing v with
  | done a => exact hQ a v h
  | call op next ih => exact ⟨h.1, fun r v' hmay => ih r (h.2 r v' hmay)⟩

/-- **The rule of sequence.** A program and what follows it meet a contract as soon as the first one
does, with a result from which the rest does. -/
theorem meets_bind {Q' : β → A → Prop} {p : Program Op Ans α} {rest : α → Program Op Ans β} :
    Meets C Q' (p >>= rest) v ↔ Meets C (fun a => Meets C Q' (rest a)) p v := by
  induction p generalizing v with
  | done a => exact Iff.rfl
  | call op next ih =>
    exact and_congr_right fun _ => forall_congr' fun r => forall_congr' fun v' =>
      imp_congr_right fun _ => ih r

/-- A contract as it is for operations that are among those of another one. -/
def Contract.pull {Op' : Type u} {Ans' : Op' → Type v} (C : Contract Op' Ans' A) (emb : Op → Op')
    (ans : (op : Op) → Ans' (emb op) → Ans op) : Contract Op Ans A where
  needs op v := C.needs (emb op) v
  may op v r v' := ∃ r', ans op r' = r ∧ C.may (emb op) v r' v'

/-- The rule for programs over more operations. -/
theorem meets_embed {Op' : Type u} {Ans' : Op' → Type v} {C : Contract Op' Ans' A}
    {emb : Op → Op'} {ans : (op : Op) → Ans' (emb op) → Ans op} {p : Program Op Ans α} :
    Meets C Q (p.embed emb ans) v ↔ Meets (C.pull emb ans) Q p v := by
  induction p generalizing v with
  | done a => exact Iff.rfl
  | call op next ih =>
    refine and_congr_right fun _ => ⟨?_, ?_⟩
    · rintro h _ v' ⟨r', rfl, hmay⟩
      exact ih _ |>.mp (h r' v' hmay)
    · intro h r' v' hmay
      exact ih _ |>.mpr (h _ v' ⟨r', rfl, hmay⟩)

end Contract

/-! ## Operations that a program keeps within -/

section Within

/-- The contract of operations that are all among `P`. -/
def Contract.within (P : Op → Prop) : Contract Op Ans Unit where
  needs op _ := P op
  may _ _ _ _ := True

/-- Every operation that the program comes to is among `P`, whatever the answers. -/
def Within (P : Op → Prop) (p : Program Op Ans α) : Prop := Meets (.within P) (fun _ _ => True) p ()

variable {P P' : Op → Prop} {p : Program Op Ans α}

lemma within_done (a : α) : Within P (.done a : Program Op Ans α) := trivial

lemma within_call {op : Op} {next : Ans op → Program Op Ans α} :
    Within P (.call op next) ↔ P op ∧ ∀ r, Within P (next r) :=
  and_congr_right fun _ => ⟨fun h r => h r () trivial, fun h r _ _ => h r⟩

lemma within_perform {op : Op} (h : P op) : Within P (perform op : Program Op Ans (Ans op)) :=
  within_call.mpr ⟨h, fun r => within_done r⟩

/-- A program and what follows it. -/
theorem Within.bind (hp : Within P p) {rest : α → Program Op Ans β}
    (hrest : ∀ a, Within P (rest a)) : Within P (p >>= rest) :=
  meets_bind.mpr (hp.mono fun a _ _ => hrest a)

theorem Within.mono (hp : Within P p) (h : ∀ op, P op → P' op) : Within P' p := by
  induction p with
  | done a => exact within_done a
  | call op next ih =>
    obtain ⟨hop, hnext⟩ := within_call.mp hp
    exact within_call.mpr ⟨h op hop, fun r => ih r (hnext r)⟩

/-- The rule for programs over more operations. -/
theorem Within.embed {Op' : Type w} {Ans' : Op' → Type v} {P : Op' → Prop} {emb : Op → Op'}
    {ans : (op : Op) → Ans' (emb op) → Ans op} (hp : Within (fun op => P (emb op)) p) :
    Within P (p.embed emb ans) := by
  induction p with
  | done a => exact within_done a
  | call op next ih =>
    obtain ⟨hop, hnext⟩ := within_call.mp hp
    exact within_call.mpr ⟨hop, fun r => ih _ (hnext _)⟩

end Within

/-! ## Systems -/

/-- A party that runs programs one after the other, in a state that it shares with an environment.
`Input` is what decides the outcome of an operation. -/
structure System (Op : Type u) (Ans : Op → Type) (σ Input EnvEvent Call : Type) where
  /-- An operation; `none` if it has to wait. -/
  perform : (op : Op) → σ → Input → Option (Ans op × σ)
  environment : σ → EnvEvent → Option σ
  program : Call → Program Op Ans Unit

/-- The state of a system, and the program that is left to run. -/
structure Config (Op : Type u) (Ans : Op → Type) (σ : Type) where
  state : σ
  running : Program Op Ans Unit

/-- What happens in a system. -/
inductive Event (Input EnvEvent Call : Type) where
  | start (k : Call)
  | perform (input : Input)
  | environment (e : EnvEvent)

namespace System

variable {Op : Type u} {Ans : Op → Type} {σ Input EnvEvent Call : Type}

/-- A step: a program is started when none is running, the running one comes to its next operation,
or the environment does something. -/
def step (S : System Op Ans σ Input EnvEvent Call) (c : Config Op Ans σ) :
    Event Input EnvEvent Call → Option (Config Op Ans σ)
  | .start k =>
    match c.running with
    | .done _ => some ⟨c.state, S.program k⟩
    | .call _ _ => none
  | .perform input =>
    match c.running with
    | .done _ => none
    | .call op next => (S.perform op c.state input).map fun r => ⟨r.2, next r.1⟩
  | .environment e => (S.environment c.state e).map fun s => ⟨s, c.running⟩

/-- A guard on the operations and on the calls, as one on the steps. -/
def Allows (operation : Op → σ → Prop) (call : Call → Prop) (c : Config Op Ans σ) :
    Event Input EnvEvent Call → Prop
  | .start k => call k
  | .perform _ =>
    match c.running with
    | .done _ => True
    | .call op _ => operation op c.state
  | .environment _ => True

instance (operation : Op → σ → Prop) (call : Call → Prop)
    [∀ op s, Decidable (operation op s)] [∀ k, Decidable (call k)] (c : Config Op Ans σ)
    (e : Event Input EnvEvent Call) : Decidable (Allows operation call c e) :=
  match e with
  | .start k => inferInstanceAs (Decidable (call k))
  | .environment _ => .isTrue trivial
  | .perform _ =>
    match c with
    | ⟨_, .done _⟩ => .isTrue trivial
    | ⟨s, .call op _⟩ => inferInstanceAs (Decidable (operation op s))

/-- The operations of a system do what a contract says and keep a property, as far as they are
allowed and have what they need; the environment keeps the property and leaves the view alone; and
the programs that may be started meet the contract. -/
structure Sound {A : Type w} (S : System Op Ans σ Input EnvEvent Call) (C : Contract Op Ans A)
    (view : σ → A) (Good : σ → Prop) (I : A → Prop) (operation : Op → σ → Prop)
    (call : Call → Prop) : Prop where
  perform : ∀ op s input r s', operation op s → C.needs op (view s) → Good s →
    S.perform op s input = some (r, s') → C.may op (view s) r (view s') ∧ Good s'
  environment : ∀ s e s', Good s → S.environment s e = some s' → view s' = view s ∧ Good s'
  program : ∀ k, call k → ∀ a, I a → Meets C (fun _ => I) (S.program k) a

variable {A : Type w} {S : System Op Ans σ Input EnvEvent Call} {C : Contract Op Ans A}
  {view : σ → A} {Good : σ → Prop} {I : A → Prop} {operation : Op → σ → Prop} {call : Call → Prop}

/-- The state is good, and the program that is left meets the contract. -/
def Kept (C : Contract Op Ans A) (view : σ → A) (Good : σ → Prop) (I : A → Prop)
    (c : Config Op Ans σ) : Prop :=
  Good c.state ∧ Meets C (fun _ => I) c.running (view c.state)

/-- A step that is allowed keeps the state good and the contract met.

**Proof sketch.** By the kind of the step. A start puts in a program, which meets the contract by
assumption. An operation that is performed keeps the state good, and what it answers is what the
contract allows, so the rest of the program meets the contract. The environment keeps the state good
and leaves the view of it alone. -/
lemma kept_step (h : S.Sound C view Good I operation call) (c : Config Op Ans σ)
    (e : Event Input EnvEvent Call) (c' : Config Op Ans σ) (hc : Kept C view Good I c)
    (hallows : Allows operation call c e) (hstep : S.step c e = some c') :
    Kept C view Good I c' := by
  obtain ⟨s, p⟩ := c
  obtain ⟨hgood, hmeets⟩ := hc
  cases e with
  | start k =>
    cases p with
    | done a =>
      obtain rfl := Option.some.inj hstep
      exact ⟨hgood, h.program k hallows _ hmeets⟩
    | call op next => cases hstep
  | perform input =>
    cases p with
    | done a => cases hstep
    | call op next =>
      obtain ⟨⟨r, s'⟩, hperform, rfl⟩ := Option.map_eq_some_iff.mp hstep
      obtain ⟨hmay, hgood⟩ := h.perform op s input r s' hallows hmeets.1 hgood hperform
      exact ⟨hgood, hmeets.2 r _ hmay⟩
  | environment e =>
    obtain ⟨s', henv, rfl⟩ := Option.map_eq_some_iff.mp hstep
    obtain ⟨hview, hgood⟩ := h.environment s e s' hgood henv
    refine ⟨hgood, ?_⟩
    show Meets C (fun _ => I) p (view s')
    rwa [hview]

/-- **The invariant rule for systems.** From a good state, every run whose operations and calls are
all allowed ends in a good state, however it interleaves with the environment. -/
theorem run_good (h : S.Sound C view Good I operation call) {s : σ} {c : Config Op Ans σ}
    {es : List (Event Input EnvEvent Call)} (hgood : Good s) (hI : I (view s))
    (hguarded : Transition.Guarded S.step (Allows operation call) ⟨s, .done ()⟩ es)
    (hrun : Transition.run S.step ⟨s, .done ()⟩ es = some c) : Good c.state := by
  have hstart : Kept C view Good I ⟨s, .done ()⟩ := ⟨hgood, hI⟩
  exact (Transition.run_invariant_of_guarded (kept_step h) hstart hguarded hrun).1

/-- **Systems whose programs keep within operations.** A property that those operations keep, and
the environment, holds after every run.

**Proof sketch.** To keep within the operations of `P` is a contract with nothing to see of the
state and nothing promised of an answer. For this contract the system is sound, so `kept_step` is
the step lemma, and `Transition.run_invariant` carries it over the run. -/
theorem run_within {P : Op → Prop} (hprogram : ∀ k, Within P (S.program k))
    (hperform : ∀ op s input r s', P op → Good s → S.perform op s input = some (r, s') → Good s')
    (henvironment : ∀ s e s', Good s → S.environment s e = some s' → Good s') {s : σ}
    {c : Config Op Ans σ} {es : List (Event Input EnvEvent Call)} (hgood : Good s)
    (hrun : Transition.run S.step ⟨s, .done ()⟩ es = some c) : Good c.state := by
  have hsound : S.Sound (.within P) (fun _ => ()) Good (fun _ => True) (fun _ _ => True)
      (fun _ => True) :=
    { perform := fun op s input r s' _ hneeds hgood h =>
        ⟨trivial, hperform op s input r s' hneeds hgood h⟩
      environment := fun s e s' hgood h => ⟨rfl, henvironment s e s' hgood h⟩
      program := fun k _ _ _ => hprogram k }
  have hstart : Kept (.within P) (fun _ => ()) Good (fun _ => True)
      (⟨s, .done ()⟩ : Config Op Ans σ) := ⟨hgood, trivial⟩
  refine (Transition.run_invariant (fun c e c' hc hstep => ?_) hstart hrun).1
  refine kept_step hsound c e c' hc ?_ hstep
  obtain ⟨s, p⟩ := c
  cases e with
  | perform input => cases p <;> trivial
  | _ => trivial

end System

end Program
