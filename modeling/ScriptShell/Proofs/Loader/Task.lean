import ScriptShell.Loader

/-!
# ScriptShell.Proofs.Loader.Task

Engines that ask a loader for modules, watched.

* `Task`: what an engine does to conduct a module: it computes on its own state, asks for modules in
  any order, goes on with whatever comes of it, and ends.
* `Event`, `Watched`: an engine's state with the chronicle of what happened.
* `Task.run`, `conduct`: run a task, conduct a module.
* `unfinished`, `executions`, `PendingIsChain`: what is read off a chronicle.
-/

namespace ScriptShell

variable {α σ β : Type}

/-- What comes of an execution. -/
abbrev Ending (α : Type) := Except Error (Globals α)

inductive Task (α σ : Type) where
  | done (outcome : Ending α)
  | act (step : σ → σ) (next : σ → Task α σ)
  | ask (module : String) (next : Ending α → Task α σ)

/-- What is noted of an execution. A moment is noted with the modules that the loader knows then. -/
inductive Event (α : Type) where
  | began (module : String)
  | ended (module : String) (outcome : Ending α)
  | moment (cache : Cache α)

/-- The module whose execution begins or ends. -/
def Event.module? : Event α → Option String
  | .began m => some m
  | .ended m _ => some m
  | .moment _ => none

structure Watched (α σ : Type) where
  engine : σ
  log : List (Event α)

namespace Hosted

def note (s : Hosted α (Watched α σ)) (e : Event α) : Hosted α (Watched α σ) :=
  { s with engine := { s.engine with log := s.engine.log ++ [e] } }

def act (s : Hosted α (Watched α σ)) (step : σ → σ) : Hosted α (Watched α σ) :=
  { s with engine := { s.engine with engine := step s.engine.engine } }

@[simp] theorem note_cache (s : Hosted α (Watched α σ)) (e : Event α) :
    (s.note e).cache = s.cache := rfl

@[simp] theorem note_log (s : Hosted α (Watched α σ)) (e : Event α) :
    (s.note e).engine.log = s.engine.log ++ [e] := rfl

@[simp] theorem act_cache (s : Hosted α (Watched α σ)) (step : σ → σ) :
    (s.act step).cache = s.cache := rfl

@[simp] theorem act_log (s : Hosted α (Watched α σ)) (step : σ → σ) :
    (s.act step).engine.log = s.engine.log := rfl

@[simp] theorem record_engine (s : Hosted α σ) (m : String) (e : Entry α) :
    (s.record m e).engine = s.engine := rfl

@[simp] theorem forget_engine (s : Hosted α σ) (m : String) :
    (s.forget m).engine = s.engine := rfl

theorem get?_record (s : Hosted α σ) (m k : String) (e : Entry α) :
    (s.record m e).cache.get? k = if k = m then some e else s.cache.get? k :=
  Table.get?_insert s.cache m k e

theorem ne_of_known {s : Hosted α σ} {m k : String} {e : Entry α} (hm : s.cache.get? m = none)
    (hk : s.cache.get? k = some e) : k ≠ m := by
  rintro rfl
  rw [hm] at hk
  cases hk

/-- What is noted of a module that was not known leaves alone what was known of others. -/
theorem get?_record_of_known {s : Hosted α σ} {m k : String} {e : Entry α}
    (hm : s.cache.get? m = none) (e' : Entry α) (hk : s.cache.get? k = some e) :
    (s.record m e').cache.get? k = some e := by
  rw [get?_record, if_neg (ne_of_known hm hk)]
  exact hk

theorem get?_forget (s : Hosted α σ) (m k : String) :
    (s.forget m).cache.get? k = if k = m then none else s.cache.get? k :=
  Table.get?_erase s.cache m k

end Hosted

/-- A computation that has come to an end, and what came of it. -/
def answer (r : Except Error β) (s : Hosted α σ) : EStateM.Result Halt (Hosted α σ) β :=
  match r with
  | .ok b => .ok b s
  | .error e => .error (.failed e) s

def Returns (x : HostM α σ β) (s : Hosted α σ) (r : Except Error β) (s' : Hosted α σ) : Prop :=
  x s = answer r s'

/-- The state in which a computation left off, whether or not it came to an end. -/
def left : EStateM.Result Halt (Hosted α σ) β → Hosted α σ
  | .ok _ s => s
  | .error _ s => s

@[simp] theorem left_answer (r : Except Error β) (s : Hosted α σ) : left (answer r s) = s := by
  cases r <;> rfl

theorem answer_inj {r r' : Except Error β} {s s' : Hosted α σ} (h : answer r s = answer r' s') :
    r = r' ∧ s = s' := by
  cases r <;> cases r' <;> simp_all [answer]

theorem outOfFuel_ne_answer (s s' : Hosted α σ) (r : Except Error β) :
    (.error .outOfFuel s : EStateM.Result Halt (Hosted α σ) β) ≠ answer r s' := by
  cases r <;> simp [answer]

/-- A computation ends with an answer or runs out of fuel. -/
theorem answer_or_outOfFuel (x : EStateM.Result Halt (Hosted α σ) β) :
    (∃ r s, x = answer r s) ∨ ∃ s, x = .error .outOfFuel s := by
  rcases x with ⟨b, s⟩ | ⟨e | _, s⟩
  · exact .inl ⟨.ok b, s, rfl⟩
  · exact .inl ⟨.error e, s, rfl⟩
  · exact .inr ⟨s, rfl⟩

/-- Run a task. Every step of it notes the moment. -/
def Task.run (exec : String → HostM α (Watched α σ) (Globals α)) :
    Task α σ → HostM α (Watched α σ) (Globals α)
  | .done r => fun s => answer r (s.note (.moment s.cache))
  | .act step next => fun s =>
    (next (step s.engine.engine)).run exec ((s.note (.moment s.cache)).act step)
  | .ask m next => fun s =>
    match load exec m (s.note (.moment s.cache)) with
    | .ok g s' => (next (.ok g)).run exec s'
    | .error (.failed e) s' => (next (.error e)).run exec s'
    | .error .outOfFuel s' => .error .outOfFuel s'

/-- Execute a module as the engine says. The fuel bounds how deep executions are nested. -/
def conduct (engine : String → Task α σ) : Nat → String → HostM α (Watched α σ) (Globals α)
  | 0, m => fun s => .error .outOfFuel (s.note (.began m))
  | fuel + 1, m => fun s =>
    match (engine m).run (conduct engine fuel) (s.note (.began m)) with
    | .ok g s' => .ok g (s'.note (.ended m (.ok g)))
    | .error (.failed e) s' => .error (.failed e) (s'.note (.ended m (.error e)))
    | .error .outOfFuel s' => .error .outOfFuel s'

/-- The modules whose execution has begun and not ended, the latest first. -/
def unfinished (chain : List String) : List (Event α) → List String
  | [] => chain
  | .began m :: es => unfinished (m :: chain) es
  | .ended _ _ :: es => unfinished chain.tail es
  | .moment _ :: es => unfinished chain es

/-- At every moment the pending modules are those whose execution has not ended. -/
def PendingIsChain (chain : List String) : List (Event α) → Prop
  | [] => True
  | .began m :: es => PendingIsChain (m :: chain) es
  | .ended _ _ :: es => PendingIsChain chain.tail es
  | .moment cache :: es =>
    (∀ k, cache.get? k = some .pending ↔ k ∈ chain) ∧ PendingIsChain chain es

/-- The executions of a module, the earliest first, each with its outcome if it has ended. -/
def executions (m : String) (log : List (Event α)) : List (Option (Ending α)) :=
  log.foldl (fun xs e =>
    match e with
    | .began k => if k = m then xs ++ [none] else xs
    | .ended k r => if k = m then xs.dropLast ++ [some r] else xs
    | .moment _ => xs) []

theorem unfinished_append (chain : List String) (es es' : List (Event α)) :
    unfinished chain (es ++ es') = unfinished (unfinished chain es) es' := by
  induction es generalizing chain with
  | nil => rfl
  | cons e es ih => cases e <;> simp only [List.cons_append, unfinished, ih]

theorem pendingIsChain_append (chain : List String) (es es' : List (Event α)) :
    PendingIsChain chain (es ++ es') ↔
      PendingIsChain chain es ∧ PendingIsChain (unfinished chain es) es' := by
  induction es generalizing chain with
  | nil => simp [PendingIsChain, unfinished]
  | cons e es ih =>
    cases e <;> simp only [List.cons_append, PendingIsChain, unfinished, ih, and_assoc]

theorem executions_concat_began (m k : String) (log : List (Event α)) :
    executions m (log ++ [.began k]) =
      if k = m then executions m log ++ [none] else executions m log := by
  simp only [executions, List.foldl_append, List.foldl_cons, List.foldl_nil]

theorem executions_concat_ended (m k : String) (r : Ending α) (log : List (Event α)) :
    executions m (log ++ [.ended k r]) =
      if k = m then (executions m log).dropLast ++ [some r] else executions m log := by
  simp only [executions, List.foldl_append, List.foldl_cons, List.foldl_nil]

theorem executions_concat_moment (m : String) (c : Cache α) (log : List (Event α)) :
    executions m (log ++ [.moment c]) = executions m log := by
  simp only [executions, List.foldl_append, List.foldl_cons, List.foldl_nil]

end ScriptShell
