import ScriptShell.Proofs.Eval.Observed
import ScriptShell.Proofs.Interrupt.Conserved
import ScriptShell.Session

/-!
# ScriptShell.Proofs.Session.Stale

Interrupts that are sent while no evaluation is active.

* `Bridge.Resting`, `Session.Resting`: between two evaluations.
* `Session.bridgeAfter_heard`, `bridgeAfter_unheard`: what an evaluation does to the bridge.
* `Bridge.Resting.course`: whatever order the steps come in, an evaluation leaves the bridge as one
  of the receipts says.
* `Session.Reached`: the sessions that calls and interrupts lead to; they are resting.
* `Session.interrupt_between_evaluations`: the main theorem.
-/

namespace ScriptShell

/-! ## The bridge between two evaluations -/

/-- An evaluation that is over, and whose token nobody but its watcher has cancelled. -/
def Evaluation.over (interrupted : Bool) : Evaluation :=
  ⟨.left interrupted, true, some interrupted, interrupted⟩

namespace Bridge

/-- Every evaluation is over, and both ends of the channel are there. -/
structure Resting (b : Bridge) : Prop where
  ended : ∀ e ∈ b.evaluations, ∃ i, e.watcher = .left i ∧ e.done = true ∧ e.finished = some i
  sender : b.sender = true
  source : b.source = true

/-- The bridge with one more evaluation. -/
def push (b : Bridge) (e : Evaluation) : Bridge := { b with evaluations := b.evaluations ++ [e] }

section
variable {b : Bridge} {e e' : Evaluation} {a : Act}

theorem latest_push : (b.push e).latest = b.evaluations.length := by
  rw [latest, push, List.length_append]
  rfl

theorem isFree_push : (b.push e).isFree = (b.isFree && !e.watcher.hasReceiver) := by
  rw [isFree, push, List.all_append, List.all_cons, List.all_nil, Bool.and_true]
  rfl

/-- What comes of something that happens to the latest evaluation. -/
theorem next_push : (b.push e).next (.at b.evaluations.length a) =
    if (b.push e).allows a then
      (e.act a).map ({ b with pending := b.pending && a ≠ .receive } : Bridge).push
    else none := by
  have hset : ∀ e', (b.evaluations ++ [e]).set b.evaluations.length e' = b.evaluations ++ [e'] := by
    intro e'
    rw [List.set_append_right _ _ le_rfl, Nat.sub_self, List.set_cons_zero]
  simp only [next, push, List.getElem?_concat_length, hset]
  rfl

theorem actLatest_push (ha : a ≠ .receive) (hallows : (b.push e).allows a = true)
    (hact : e.act a = some e') : (b.push e).actLatest a = b.push e' := by
  rw [actLatest, latest_push, attempt, next_push, if_pos hallows, hact, decide_eq_true ha,
    Bool.and_true]
  rfl

theorem actLatest_push_receive (hp : b.pending = true) (hact : e.act .receive = some e') :
    (b.push e).actLatest .receive = ({ b with pending := false } : Bridge).push e' := by
  have hallows : (b.push e).allows .receive = true := hp
  rw [actLatest, latest_push, attempt, next_push, if_pos hallows, hact, hp]
  rfl

theorem actLatest_push_of_none (h : (b.push e).allows a = false ∨ e.act a = none) :
    (b.push e).actLatest a = b.push e := by
  rw [actLatest, latest_push, attempt, next_push]
  rcases h with h | h
  · rw [h, if_neg Bool.false_ne_true, Option.getD_none]
  · rw [h, Option.map_none, ite_self, Option.getD_none]

end

namespace Resting

variable {b : Bridge}

theorem isFree (h : b.Resting) : b.isFree = true :=
  isFree_of_left fun e he => (h.ended e he).imp fun _ hover => hover.1

theorem interrupt (h : b.Resting) : b.interrupt = { b with pending := true } := by
  have haccepts : b.accepts = !b.pending := by
    rw [accepts, hasReceiver, h.sender, h.source]
    rfl
  rw [Bridge.interrupt, attempt, next, if_pos rfl, haccepts]
  cases b.pending <;> rfl

theorem takeStale (h : b.Resting) : b.takeStale = (b.pending, { b with pending := false }) := by
  have hstale : b.isStale = b.pending := by rw [isStale, h.isFree, Bool.true_and]
  rw [Bridge.takeStale, attempt, next, h.source, hstale]
  cases b.pending <;> simp

theorem push (h : b.Resting) (i : Bool) : (b.push (.over i)).Resting where
  ended := by
    intro e he
    rcases List.mem_append.1 he with he | he
    · exact h.ended e he
    · rw [List.mem_singleton.1 he]
      exact ⟨i, rfl, rfl, rfl⟩
  sender := h.sender
  source := h.source

/-- Whether an interrupt waits has nothing to do with it. -/
theorem setPending (h : b.Resting) (pending : Bool) :
    ({ b with pending := pending } : Bridge).Resting :=
  ⟨h.ended, h.sender, h.source⟩

theorem complete (h : b.Resting) : b.complete = b := by
  -- the latest evaluation, if there is one, is over already
  have hsame : ∀ a, (∀ e ∈ b.evaluations, e.act a = none) → b.actLatest a = b := by
    intro a ha
    rw [actLatest, attempt, next]
    cases he : b.evaluations[b.latest]? with
    | none => rfl
    | some e =>
      simp only [ha e (List.mem_of_getElem? he), Option.map_none, ite_self, Option.getD_none]
  rw [Bridge.complete, hsame .complete, hsame (.leave false)]
  · intro e he
    obtain ⟨i, hw, -⟩ := h.ended e he
    rw [Evaluation.act, hw]
    simp [Watcher.isWaiting]
  · intro e he
    obtain ⟨i, -, hd, -⟩ := h.ended e he
    rw [Evaluation.act, hd]
    rfl

theorem begin (h : b.Resting) : b.begin = b.push .fresh := by
  rw [Bridge.begin, h.complete, attempt, next, if_pos h.source]
  rfl

theorem listen (h : b.Resting) :
    (b.push .fresh).listen = b.push ⟨.listening, false, none, false⟩ := by
  have hfree : (b.push .fresh).isFree = true := by rw [isFree_push, h.isFree]; rfl
  exact actLatest_push nofun hfree rfl

end Resting

theorem receive_push {b : Bridge} (hp : b.pending = true) :
    (b.push ⟨.listening, false, none, false⟩).receive =
      ({ b with pending := false } : Bridge).push ⟨.left true, false, none, true⟩ := by
  simp only [receive, List.foldl_cons, List.foldl_nil]
  rw [actLatest_push_receive hp rfl, actLatest_push (a := .release) nofun rfl rfl,
    actLatest_push (a := .strike) nofun rfl rfl, actLatest_push (a := .leave true) nofun rfl rfl]

theorem receive_push_of_not {b : Bridge} (hp : b.pending = false) :
    (b.push ⟨.listening, false, none, false⟩).receive =
      b.push ⟨.listening, false, none, false⟩ := by
  simp only [receive, List.foldl_cons, List.foldl_nil]
  rw [actLatest_push_of_none (a := .receive) (.inl hp),
    actLatest_push_of_none (a := .release) (.inr rfl),
    actLatest_push_of_none (a := .strike) (.inr rfl),
    actLatest_push_of_none (a := .leave true) (.inr rfl)]

theorem finish_push {b : Bridge} {e c : Evaluation} {i : Bool} (hf : e.finished = none)
    (hc : (b.push e).complete = b.push c) (hw : decide (c.watcher = .left true) = i)
    (he : c.act (.finish i) = some ⟨c.watcher, true, some i, c.cancelled⟩) :
    (b.push e).finish.2 = b.push ⟨c.watcher, true, some i, c.cancelled⟩ := by
  have hlast : ∀ e : Evaluation, (b.push e).evaluations.getLast? = some e :=
    fun e => List.getLast?_concat
  simp only [finish, hlast, hf, Option.isSome_none, Bool.false_eq_true, if_false, hc,
    Option.any_some, hw]
  exact actLatest_push (by simp) rfl he

theorem finish_listening (b : Bridge) :
    (b.push ⟨.listening, false, none, false⟩).finish.2 = b.push (.over false) := by
  refine finish_push (c := ⟨.left false, true, none, false⟩) rfl ?_ rfl rfl
  rw [complete, actLatest_push (a := .complete) nofun rfl rfl,
    actLatest_push (a := .leave false) nofun rfl rfl]

theorem finish_left (b : Bridge) :
    (b.push ⟨.left true, false, none, true⟩).finish.2 = b.push (.over true) := by
  refine finish_push (c := ⟨.left true, true, none, true⟩) rfl ?_ rfl rfl
  rw [complete, actLatest_push (a := .complete) nofun rfl rfl,
    actLatest_push_of_none (a := .leave false) (.inr rfl)]

end Bridge

section
variable {b : Bridge}

/-- The watcher receives the interrupt that waits. -/
theorem Session.bridgeAfter_heard (h : b.Resting) (hp : b.pending = true) (polls : Nat) :
    bridgeAfter b (.after polls) = ({ b with pending := false } : Bridge).push (.over true) := by
  simp only [bridgeAfter, h.begin, h.listen]
  rw [Bridge.receive_push hp, Bridge.finish_left]

/-- Nothing is received. -/
theorem Session.bridgeAfter_unheard (h : b.Resting) {receipt : Receipt}
    (hr : b.pending = false ∨ receipt = .never) :
    bridgeAfter b receipt = b.push (.over false) := by
  simp only [bridgeAfter, h.begin, h.listen]
  cases receipt with
  | after polls => rw [Bridge.receive_push_of_not (hr.resolve_right nofun), Bridge.finish_listening]
  | never => exact Bridge.finish_listening b

end

/-! ## Every course of an evaluation -/

namespace Bridge

/-- What can happen while the `n`-th evaluation is active: session and watcher take their steps, and
interrupts are sent. -/
def Event.IsDuring (n : Nat) : Event → Prop
  | .interrupt _ => True
  | .at m a => m = n ∧ a ≠ .cancel
  | _ => False

/-- The steps concern the latest evaluation alone. An interrupt that waited before it still waits
unless the watcher has received one. -/
theorem after_push {b b' : Bridge} {evs : List Event}
    (hevs : ∀ ev ∈ evs, ev.IsDuring b.evaluations.length)
    (hafter : (b.push .fresh).after evs = some b') :
    ∃ pending e, b' = ({ b with pending := pending } : Bridge).push e ∧
      e.Agrees evs b.evaluations.length ∧
      (b.pending = true → .at b.evaluations.length .receive ∉ evs → pending = true) := by
  induction evs using List.reverseRecOn generalizing b' with
  | nil =>
    cases hafter
    exact ⟨b.pending, .fresh, rfl, .fresh fun _ => List.not_mem_nil, fun hb _ => hb⟩
  | append_singleton evs ev ih =>
    rw [after_concat, Option.bind_eq_some_iff] at hafter
    obtain ⟨b₁, hafter, hnext⟩ := hafter
    obtain ⟨hevs, hev⟩ := List.forall_mem_append.1 hevs
    obtain ⟨pending, e, rfl, hagrees, hwaits⟩ := ih hevs hafter
    have hev := hev ev (List.mem_singleton_self ev)
    cases ev with
    | interrupt accepted =>
      simp only [next, Option.ite_none_right_eq_some] at hnext
      obtain ⟨-, hnext⟩ := hnext
      cases hnext
      have hother : ∀ a, Event.interrupt accepted ≠ .at b.evaluations.length a := by
        intro a heq
        cases heq
      refine ⟨pending || accepted, e, rfl, hagrees.other hother, fun hb hreceive => ?_⟩
      rw [hwaits hb fun hmem => hreceive (List.mem_append_left _ hmem), Bool.true_or]
    | «at» n a =>
      obtain ⟨rfl, -⟩ := hev
      have hnext := (next_push (b := { b with pending := pending })).symm.trans hnext
      simp only [Option.ite_none_right_eq_some, Option.map_eq_some_iff] at hnext
      obtain ⟨-, e', hact, rfl⟩ := hnext
      refine ⟨pending && a ≠ .receive, e', rfl, hagrees.act hact, fun hb hreceive => ?_⟩
      rw [Evaluation.Agrees.mem_snoc, not_or] at hreceive
      rw [hwaits hb hreceive.1, Bool.true_and, decide_eq_true_eq]
      exact hreceive.2 ∘ Eq.symm
    | _ => exact hev.elim

theorem eq_over_of_agrees {e : Evaluation} {evs : List Event} {n : Nat} {i : Bool}
    (h : e.Agrees evs n) (hcancel : Event.at n .cancel ∉ evs) (hfinished : e.finished = some i) :
    e = .over i := by
  obtain ⟨hwatcher, hdone⟩ := h.ended i hfinished
  have hcancelled : e.cancelled = i := by
    rw [Bool.eq_iff_iff, h.cancelled, or_iff_left hcancel, hwatcher]
    cases i <;> simp [Watcher.hasStruck]
  obtain ⟨w, d, f, c⟩ := e
  obtain rfl : w = .left i := hwatcher
  obtain rfl : d = true := hdone
  obtain rfl : f = some i := hfinished
  obtain rfl : c = i := hcancelled
  rfl

/-- The steps of session and watcher and the sending of interrupts come in any order while an
evaluation is active. When it is over the bridge is as if the interrupt had been received as one of
the receipts says, and as if interrupts had been sent before and behind the evaluation only. -/
theorem Resting.course {b b' : Bridge} {evs : List Event} (h : b.Resting)
    (hevs : ∀ ev ∈ evs, ev.IsDuring b.evaluations.length) (hafter : b.begin.after evs = some b')
    (hidle : b'.isIdle = true) :
    ∃ b₀ receipt, (b₀ = b ∨ b₀ = b.interrupt) ∧
      (b' = Session.bridgeAfter b₀ receipt ∨ b' = (Session.bridgeAfter b₀ receipt).interrupt) := by
  rw [h.begin] at hafter
  obtain ⟨pending, e, rfl, hagrees, hwaits⟩ := after_push hevs hafter
  have hcancel : Event.at b.evaluations.length .cancel ∉ evs := fun hmem => (hevs _ hmem).2 rfl
  obtain ⟨i, hfinished⟩ : ∃ i, e.finished = some i :=
    Option.isSome_iff_exists.1 (List.all_eq_true.1 hidle e (List.mem_append_right _ (.head _)))
  obtain rfl := eq_over_of_agrees hagrees hcancel hfinished
  cases i with
  | true =>
    have hreceived : Session.bridgeAfter b.interrupt (.after 0) =
        ({ b with pending := false } : Bridge).push (.over true) := by
      rw [h.interrupt, Session.bridgeAfter_heard (h.setPending true) rfl]
    refine ⟨b.interrupt, .after 0, .inr rfl, ?_⟩
    rw [hreceived, ((h.setPending false).push true).interrupt]
    cases pending
    · exact .inl rfl
    · exact .inr rfl
  | false =>
    have hreceive : Event.at b.evaluations.length .receive ∉ evs :=
      List.count_eq_zero.1 hagrees.received
    refine ⟨b, .never, .inl rfl, ?_⟩
    rw [Session.bridgeAfter_unheard h (.inr rfl), (h.push false).interrupt]
    cases hp : b.pending with
    | true =>
      rw [hwaits hp hreceive, ← hp]
      exact .inl rfl
    | false =>
      cases pending
      · rw [← hp]
        exact .inl rfl
      · exact .inr rfl

end Bridge

/-! ## Sessions between two evaluations -/

namespace Session

/-- No evaluation is active, the loader waits for nothing, and what has become of the bridge are
steps that it can take. -/
structure Resting (s : Session) : Prop where
  bridge : s.bridge.Resting
  happened : s.bridge.Happened
  world : s.world.Idle

/-- The session when an interrupt has been sent. -/
def interrupted (s : Session) : Session := { s with bridge := s.bridge.interrupt }

@[simp] theorem interrupted_config (s : Session) : s.interrupted.config = s.config := rfl

@[simp] theorem interrupted_globals (s : Session) : s.interrupted.globals = s.globals := rfl

@[simp] theorem interrupted_world (s : Session) : s.interrupted.world = s.world := rfl

/-- How the evaluation of an expression ends. -/
theorem evaluate_expr {s : Session} {fuel : Nat} {e : Expr} {r : Except Error Value} {w : World}
    (h : ScriptShell.evaluate s.context fuel s.config.filename s.globals e s.world.begin =
      answer r w) :
    s.evaluate fuel (.expr e) = some (r.map some, s.afterEvaluation s.globals w) := by
  simp only [evaluate, h]
  cases r <;> rfl

theorem evaluate_stmts {s : Session} {fuel : Nat} {p : Program} {x : Executed}
    {r : Except Error Unit}
    (h : execute s.context fuel s.config.filename s.globals p s.world.begin = x)
    (hr : x.outcome = r.mapError .failed) :
    s.evaluate fuel (.stmts p) = some (r.map fun _ => none,
      s.afterEvaluation x.globals x.world) := by
  simp only [evaluate, h, hr]
  cases r <;> rfl

theorem context_of_quiet {s : Session} (h : s.bridge.pending = false) :
    s.context = ⟨s.library, true, none⟩ := by
  rw [context, h]
  rfl

/-- The session when a unit has been dealt with. -/
def Turn.session : Turn → Session
  | .again s _ => s
  | .over _ s _ => s

namespace Resting

variable {s s' : Session} {fuel : Nat}

theorem start (config : Config) (library : Library) (schedule : Nat → Receipt) :
    Resting { Session.start config library with schedule := schedule } where
  bridge := ⟨(List.forall_mem_nil _), rfl, rfl⟩
  happened := .start
  world := fun _ _ he => nomatch he

theorem interrupted_bridge (h : s.Resting) :
    s.interrupted.bridge = { s.bridge with pending := true } :=
  h.bridge.interrupt

theorem interrupted (h : s.Resting) : s.interrupted.Resting where
  bridge := h.interrupted_bridge ▸ h.bridge.setPending true
  happened := h.happened.interrupt
  world := h.world

theorem deliver (h : s.Resting) (d : Delivery) : (s.deliver d).Resting := by
  rw [Session.deliver]
  split
  · exact h.interrupted
  · exact h

theorem bridgeAfter (h : s.Resting) (receipt : Receipt) :
    (bridgeAfter s.bridge receipt).Resting := by
  cases receipt with
  | never => exact bridgeAfter_unheard h.bridge (.inr rfl) ▸ h.bridge.push false
  | after polls =>
    cases hp : s.bridge.pending with
    | false => exact bridgeAfter_unheard h.bridge (.inl hp) ▸ h.bridge.push false
    | true => exact bridgeAfter_heard h.bridge hp polls ▸ (h.bridge.setPending false).push true

theorem afterEvaluation (h : s.Resting) (g : Globals Value) {w : World} (hw : w.Idle) :
    (s.afterEvaluation g w).Resting where
  bridge := h.bridgeAfter _
  happened := by
    have hlisten := h.happened.begin.listen
    rw [Session.afterEvaluation]
    cases s.receipt with
    | after polls => exact hlisten.receive.finish
    | never => exact hlisten.finish
  world := hw

theorem evaluate (h : s.Resting) {u : InputUnit} {r : Except Error (Option Value)}
    (he : s.evaluate fuel u = some (r, s')) : s'.Resting := by
  have hidle : s.world.begin.Idle := h.world
  cases u with
  | expr e =>
    rcases answer_or_outOfFuel (ScriptShell.evaluate s.context fuel s.config.filename s.globals e
      s.world.begin) with ⟨v, w, hv⟩ | ⟨w, hv⟩
    · rw [evaluate_expr hv] at he
      cases he
      exact h.afterEvaluation _ (hidle.of_keeps (keeps_evaluate hv))
    · simp only [Session.evaluate, hv] at he
      cases he
  | stmts p =>
    generalize hx : execute s.context fuel s.config.filename s.globals p s.world.begin = x
    have hkeeps : x.outcome ≠ .error .outOfFuel → x.world.Idle := by
      intro hend
      rw [← hx] at hend ⊢
      exact hidle.of_keeps (keeps_execute hend)
    simp only [Session.evaluate, hx] at he
    split at he
    · rename_i hout
      cases he
      exact h.afterEvaluation _ (hkeeps (hout ▸ nofun))
    · rename_i hout
      cases he
      exact h.afterEvaluation _ (hkeeps (hout ▸ nofun))
    · cases he

theorem printValue (h : s.Resting) (v : Value) : (s.printValue v).Resting := by
  rw [Session.printValue]
  split
  · exact h
  · exact ⟨h.bridge, h.happened, h.world⟩

theorem perform (h : s.Resting) {u : InputUnit} (hp : s.perform fuel u = some s') :
    s'.Resting := by
  unfold Session.perform at hp
  split at hp
  · cases hp
  · rename_i he
    cases hp
    exact (h.evaluate he).printValue _
  · rename_i he
    cases hp
    exact h.evaluate he
  · rename_i he
    cases hp
    have h' := h.evaluate he
    exact ⟨h'.bridge, h'.happened, h'.world⟩

theorem performBlock (h : s.Resting) {b : PendingBlock} (hp : s.performBlock fuel b = some s') :
    s'.Resting := by
  unfold Session.performBlock at hp
  split at hp
  · exact h.perform hp
  · cases hp
    exact ⟨h.bridge, h.happened, h.world⟩

theorem readLine (h : s.Resting) {prompt : String} {i i' : Input} {r : Except ReadError String}
    (hr : s.readLine prompt i = (r, s', i')) : s'.Resting := by
  unfold Session.readLine at hr
  split at hr
  · cases hr
    exact h
  · cases hr
    exact h.deliver _

theorem readBlock (h : s.Resting) {b : PendingBlock} {shown : List String} {ds : List Delivery}
    {r : Except ReadError PendingBlock} {i : Input}
    (hr : s.readBlock b shown ds = (r, s', i)) : s'.Resting := by
  induction ds generalizing s b shown with
  | nil =>
    cases hr
    exact h
  | cons d ds ih =>
    unfold Session.readBlock at hr
    split at hr
    · cases hr
      exact h.deliver d
    · split at hr
      · cases hr
        exact h.deliver d
      · exact ih (h.deliver d) hr

theorem rep (h : s.Resting) {i i' : Input} {r : Except ReadError Unit}
    (hr : s.rep fuel i = some (r, s', i')) : s'.Resting := by
  unfold Session.rep at hr
  rw [h.bridge.takeStale] at hr
  split at hr
  · rename_i hb
    cases hr
    obtain ⟨-, rfl⟩ := Prod.mk.inj hb
    refine ⟨h.bridge.setPending false, ?_, h.world⟩
    have happened := h.happened.takeStale
    rwa [h.bridge.takeStale] at happened
  · split at hr
    · rename_i hline
      cases hr
      exact h.readLine hline
    · rename_i hline
      have h₁ := h.readLine hline
      split at hr
      · cases hr
        exact h₁
      · split at hr
        · obtain ⟨s₂, hs₂, hr⟩ := Option.map_eq_some_iff.1 hr
          cases hr
          exact h₁.perform hs₂
        · split at hr
          · rename_i hblock
            cases hr
            exact h₁.readBlock hblock
          · rename_i hblock
            obtain ⟨s₂, hs₂, hr⟩ := Option.map_eq_some_iff.1 hr
            cases hr
            exact (h₁.readBlock hblock).performBlock hs₂

theorem turn (h : s.Resting) {i : Input} {t : Turn} (ht : s.turn fuel i = some t) :
    t.session.Resting := by
  unfold Session.turn at ht
  split at ht
  · cases ht
  all_goals
    rename_i hrep
    cases ht
    have h' := h.rep hrep
    exact ⟨h'.bridge, h'.happened, h'.world⟩

theorem run (h : s.Resting) {i i' : Input} {r : Except ReadError Unit}
    (hr : s.run fuel i = some (r, s', i')) : s'.Resting := by
  induction fuel generalizing s i with
  | zero => cases hr
  | succ fuel ih =>
    rw [Session.run] at hr
    split at hr
    · cases hr
    · rename_i ht
      exact ih (h.turn ht) hr
    · rename_i ht
      cases hr
      exact h.turn ht

theorem evalText (h : s.Resting) {text : String} {r : Except Error Unit}
    (hr : s.evalText fuel text = some (r, s')) : s'.Resting := by
  unfold Session.evalText at hr
  split at hr
  · cases hr
    exact h
  · split at hr
    · cases hr
    · rename_i he
      cases hr
      exact (h.evaluate he).printValue _
    · rename_i he
      cases hr
      exact h.evaluate he
    · rename_i he
      cases hr
      exact h.evaluate he

end Resting

/-- The sessions that calls lead to, with interrupts sent between the calls, between the units of a
run and while lines are read, and whenever the interrupts are received. -/
inductive Reached : Session → Prop where
  | start (config : Config) (library : Library) (schedule : Nat → Receipt) :
      Reached { Session.start config library with schedule := schedule }
  | interrupted {s : Session} (h : Reached s) : Reached s.interrupted
  | rep {s s' : Session} {fuel : Nat} {i i' : Input} {r : Except ReadError Unit} (h : Reached s)
      (hr : s.rep fuel i = some (r, s', i')) : Reached s'
  | turn {s : Session} {fuel : Nat} {i : Input} {t : Turn} (h : Reached s)
      (ht : s.turn fuel i = some t) : Reached t.session
  | run {s s' : Session} {fuel : Nat} {i i' : Input} {r : Except ReadError Unit} (h : Reached s)
      (hr : s.run fuel i = some (r, s', i')) : Reached s'
  | evalText {s s' : Session} {fuel : Nat} {text : String} {r : Except Error Unit} (h : Reached s)
      (hr : s.evalText fuel text = some (r, s')) : Reached s'

theorem Reached.resting {s : Session} (h : Reached s) : s.Resting := by
  induction h with
  | start config library schedule => exact .start config library schedule
  | interrupted _ ih => exact ih.interrupted
  | rep _ hr ih => exact ih.rep hr
  | turn _ ht ih => exact ih.turn ht
  | run _ hr ih => exact ih.run hr
  | evalText _ hr ih => exact ih.evalText hr

/-- So what holds of every history of the bridge holds of the session's. -/
theorem Reached.happened {s : Session} (h : Reached s) : s.bridge.Happened := h.resting.happened

/-! ## What becomes of an interrupt -/

section
variable {s : Session}

/-- It is reported in place of reading a line, and then the session is as if there had been none. -/
theorem Resting.rep_interrupted (h : s.Resting) (hp : s.bridge.pending = false) (fuel : Nat)
    (i : Input) : s.interrupted.rep fuel i = some (.error .interrupted, s, i) := by
  have hstale : s.interrupted.bridge.takeStale = (true, s.bridge) := by
    rw [h.interrupted.bridge.takeStale, h.interrupted_bridge]
    simp only [← hp]
  rw [Session.rep, hstale]
  rfl

theorem Resting.run_interrupted (h : s.Resting) (hp : s.bridge.pending = false) (fuel : Nat)
    (i : Input) : s.interrupted.run (fuel + 1) i =
      (s.writeOut (ReadError.interrupted.message ++ "\n")).run fuel i := by
  rw [Session.run, Session.turn, h.rep_interrupted hp]

/-- The number of the next evaluation is the same. -/
theorem Resting.interrupted_receipt (h : s.Resting) : s.interrupted.receipt = s.receipt := by
  rw [receipt, h.interrupted_bridge]
  rfl

theorem Resting.interrupted_context (h : s.Resting) :
    s.interrupted.context = ⟨s.library, true, s.receipt.cancelFrom⟩ := by
  rw [context, h.interrupted_receipt, h.interrupted_bridge]
  rfl

/-- No interrupt has been received when the evaluation is over: so it was evaluated like any other,
and the interrupt still waits. -/
theorem Resting.evaluate_unheard (h : s.Resting) (hp : s.bridge.pending = false)
    (hr : s.receipt = .never) (fuel : Nat) (u : InputUnit) :
    s.interrupted.evaluate fuel u = (s.evaluate fuel u).map fun x => (x.1, x.2.interrupted) := by
  have hcontext : s.interrupted.context = s.context := by
    rw [h.interrupted_context, hr, context_of_quiet hp]
    rfl
  have hafter : ∀ g w, s.interrupted.afterEvaluation g w = (s.afterEvaluation g w).interrupted := by
    intro g w
    have hbridge : Session.bridgeAfter s.interrupted.bridge s.interrupted.receipt =
        (Session.bridgeAfter s.bridge s.receipt).interrupt := by
      rw [(h.bridgeAfter _).interrupt, h.interrupted_receipt,
        bridgeAfter_unheard h.interrupted.bridge (.inr hr), bridgeAfter_unheard h.bridge (.inr hr),
        h.interrupted_bridge]
      rfl
    exact congrArg (fun b => { s with globals := g, world := w, bridge := b }) hbridge
  cases u with
  | expr e =>
    simp only [Session.evaluate, hcontext, hafter, interrupted_config, interrupted_globals,
      interrupted_world]
    rcases ScriptShell.evaluate s.context fuel s.config.filename s.globals e s.world.begin
      with ⟨v, w⟩ | ⟨f | _, w⟩ <;> rfl
  | stmts p =>
    simp only [Session.evaluate, hcontext, hafter, interrupted_config, interrupted_globals,
      interrupted_world]
    rcases execute s.context fuel s.config.filename s.globals p s.world.begin
      with ⟨(f | _) | _, g, w⟩ <;> rfl

theorem Resting.afterEvaluation_interrupted (h : s.Resting) (hp : s.bridge.pending = false) {k : Nat}
    (hr : s.receipt = .after k) (g : Globals Value) (w : World) :
    s.interrupted.afterEvaluation g w =
      { s with globals := g, world := w, bridge := s.bridge.push (.over true) } := by
  have hbridge : Session.bridgeAfter s.interrupted.bridge s.interrupted.receipt =
      s.bridge.push (.over true) := by
    have hwaits : s.interrupted.bridge.pending = true := by rw [h.interrupted_bridge]
    rw [h.interrupted_receipt, hr, bridgeAfter_heard h.interrupted.bridge hwaits,
      h.interrupted_bridge]
    simp only [← hp]
  exact congrArg (fun b => { s with globals := g, world := w, bridge := b }) hbridge

theorem Resting.afterEvaluation_quiet (h : s.Resting) (hp : s.bridge.pending = false)
    (g : Globals Value) (w : World) :
    s.afterEvaluation g w =
      { s with globals := g, world := w, bridge := s.bridge.push (.over false) } :=
  congrArg (fun b => { s with globals := g, world := w, bridge := b })
    (bridgeAfter_unheard h.bridge (.inl hp))

/-- An interrupt that is received is not reported to anybody else. The evaluation ends. It is
cancelled if it makes a poll behind the receipt; else it comes to the same as without the
interrupt. -/
theorem Resting.evaluate_heard (h : s.Resting) (hp : s.bridge.pending = false) {k : Nat}
    (hr : s.receipt = .after k) (u : InputUnit) :
    ∃ N r s₁, (∀ fuel ≥ N, s.interrupted.evaluate fuel u = some (r, s₁)) ∧
      s₁.bridge = s.bridge.push (.over true) ∧
      ((s₁.world.engine.polls = k + 1 ∧ r = .error .cancelled) ∨
        (s₁.world.engine.polls ≤ k ∧ ∀ fuel ≥ N,
          s.evaluate fuel u = some (r, { s₁ with bridge := s.bridge.push (.over false) }))) := by
  have hstopped : s.interrupted.context = ⟨s.library, true, some (k + 1)⟩ := by
    rw [h.interrupted_context, hr]
    rfl
  have hleft : s.context = ⟨s.library, true, none⟩ := context_of_quiet hp
  -- with the interrupt waiting the evaluation is one that is stopped at a poll, so it ends
  cases u with
  | expr e =>
    obtain ⟨N, r, w, hrun, -, hcancelled, hfree⟩ :=
      evaluate_stops s.library true s.config.filename s.globals s.world k.succ_pos e
    have hrun' : ∀ fuel ≥ N, s.interrupted.evaluate fuel (.expr e) = _ := fun fuel hfuel =>
      evaluate_expr (s := s.interrupted) (r := r) (w := w) (by rw [hstopped]; exact hrun fuel hfuel)
    refine ⟨N, _, _, hrun', ?_⟩
    simp only [h.afterEvaluation_interrupted hp hr, true_and]
    rcases le_or_gt (k + 1) w.engine.polls with hle | hlt
    · obtain ⟨hpolls, rfl, -⟩ := hcancelled hle
      exact .inl ⟨hpolls, rfl⟩
    · refine .inr ⟨Nat.le_of_lt_succ hlt, fun fuel hfuel => ?_⟩
      rw [evaluate_expr (by rw [hleft]; exact hfree hlt fuel hfuel), h.afterEvaluation_quiet hp]
      rfl
  | stmts p =>
    obtain ⟨N, x, hrun, hend, -, hcancelled, hfree⟩ :=
      execute_stops s.library true s.config.filename s.globals s.world k.succ_pos p
    obtain ⟨r, hr'⟩ : ∃ r : Except Error Unit, x.outcome = r.mapError .failed := by
      rcases hout : x.outcome with (e | _) | _
      · exact ⟨.error e, rfl⟩
      · exact absurd hout hend
      · exact ⟨.ok (), rfl⟩
    have hrun' : ∀ fuel ≥ N, s.interrupted.evaluate fuel (.stmts p) = _ := fun fuel hfuel =>
      evaluate_stmts (s := s.interrupted) (x := x) (by rw [hstopped]; exact hrun fuel hfuel) hr'
    refine ⟨N, _, _, hrun', ?_⟩
    simp only [h.afterEvaluation_interrupted hp hr, true_and]
    rcases le_or_gt (k + 1) x.world.engine.polls with hle | hlt
    · obtain ⟨hpolls, hout, -⟩ := hcancelled hle
      refine .inl ⟨hpolls, ?_⟩
      rw [hout] at hr'
      cases r with
      | ok _ => cases hr'
      | error e =>
        cases hr'
        rfl
    · refine .inr ⟨Nat.le_of_lt_succ hlt, fun fuel hfuel => ?_⟩
      rw [evaluate_stmts (by rw [hleft]; exact hfree hlt fuel hfuel) hr',
        h.afterEvaluation_quiet hp]

/-- An interrupt is sent while no evaluation is active and none waits. If a unit is read next it is
reported once, in place of reading a line, and cancels nothing: the session goes on as if there had
been none. An evaluation that begins before that, as that of `Session.evalText` and of the line that
was being read, has one of three ends. Its watcher may receive nothing: then the evaluation is not
affected, and the interrupt still waits. Or the watcher receives the interrupt, which then is not
reported, and the evaluation ends: it is cancelled if it makes one more poll; and if it makes none,
nobody hears of the interrupt, and there is the same result as without it. -/
theorem interrupt_between_evaluations (hs : s.Reached) (hp : s.bridge.pending = false) :
    (∀ fuel i, s.interrupted.rep fuel i = some (.error .interrupted, s, i)) ∧
    (∀ fuel i, s.interrupted.run (fuel + 1) i =
      (s.writeOut (ReadError.interrupted.message ++ "\n")).run fuel i) ∧
    ∀ u, (s.receipt = .never → ∀ fuel, s.interrupted.evaluate fuel u =
        (s.evaluate fuel u).map fun x => (x.1, x.2.interrupted)) ∧
      ∀ k, s.receipt = .after k →
        ∃ N r s₁, (∀ fuel ≥ N, s.interrupted.evaluate fuel u = some (r, s₁)) ∧
          s₁.bridge = s.bridge.push (.over true) ∧ s₁.bridge.pending = false ∧
          ((s₁.world.engine.polls = k + 1 ∧ r = .error .cancelled) ∨
            (s₁.world.engine.polls ≤ k ∧ ∀ fuel ≥ N,
              s.evaluate fuel u = some (r, { s₁ with bridge := s.bridge.push (.over false) }))) := by
  have h := hs.resting
  refine ⟨h.rep_interrupted hp, h.run_interrupted hp, fun u => ⟨fun hr fuel =>
    h.evaluate_unheard hp hr fuel u, fun k hr => ?_⟩⟩
  obtain ⟨N, r, s₁, hrun, hbridge, hends⟩ := h.evaluate_heard hp hr u
  exact ⟨N, r, s₁, hrun, hbridge, hbridge ▸ hp, hends⟩

/-- A session in which every interrupt is received in the same way. -/
def attentive (receipt : Receipt) : Session :=
  { Session.start .usual (.ofTexts .empty) with schedule := fun _ => receipt }

theorem attentive_reached (receipt : Receipt) : (attentive receipt).Reached :=
  .start .usual (.ofTexts .empty) fun _ => receipt

/-- The evaluation of `True` makes one poll. -/
theorem attentive_evaluate (receipt : Receipt) (fuel : Nat) :
    ∃ t, (attentive receipt).evaluate (fuel + 1) (.expr (.bool true)) =
      some (.ok (some (.bool true)), t) ∧ t.world.engine.polls = 1 :=
  ⟨_, rfl, rfl⟩

theorem interrupt_between_evaluations_attentive :
    (∀ receipt, (attentive receipt).Reached ∧ (attentive receipt).bridge.pending = false ∧
      ∀ fuel i, (attentive receipt).interrupted.rep fuel i =
        some (.error .interrupted, attentive receipt, i)) ∧
    (∀ fuel, ∃ t, (attentive .never).interrupted.evaluate (fuel + 1) (.expr (.bool true)) =
      some (.ok (some (.bool true)), t) ∧ t.bridge.pending = true) ∧
    (∃ N t, (∀ fuel ≥ N, (attentive (.after 0)).interrupted.evaluate fuel (.expr (.bool true)) =
      some (.error .cancelled, t)) ∧ t.bridge.pending = false) ∧
    ∃ N t, (∀ fuel ≥ N, (attentive (.after 1)).interrupted.evaluate fuel (.expr (.bool true)) =
      some (.ok (some (.bool true)), t)) ∧ t.bridge.pending = false := by
  have hends := fun receipt =>
    (interrupt_between_evaluations (attentive_reached receipt) rfl).2.2 (.expr (.bool true))
  refine ⟨fun receipt => ?_, fun fuel => ?_, ?_, ?_⟩
  · have hs := attentive_reached receipt
    exact ⟨hs, rfl, (interrupt_between_evaluations hs rfl).1⟩
  · obtain ⟨t, ht, -⟩ := attentive_evaluate .never fuel
    refine ⟨t.interrupted, by rw [(hends .never).1 rfl, ht]; rfl, ?_⟩
    rw [((attentive_reached .never).resting.evaluate ht).interrupted_bridge]
  · obtain ⟨N, r, s₁, hrun, -, hquiet, ⟨-, rfl⟩ | ⟨hpolls, hfree⟩⟩ := (hends (.after 0)).2 0 rfl
    · exact ⟨N, s₁, hrun, hquiet⟩
    · obtain ⟨t, ht, hone⟩ := attentive_evaluate (.after 0) N
      rw [hfree _ N.le_succ] at ht
      cases ht
      exact absurd (hone ▸ hpolls) (by decide)
  · obtain ⟨N, r, s₁, hrun, -, hquiet, -⟩ := (hends (.after 1)).2 1 rfl
    have hvalue : ((attentive (.after 1)).interrupted.evaluate (N + 1) (.expr (.bool true))).map
        Prod.fst = some (.ok (some (.bool true))) := rfl
    rw [hrun _ N.le_succ] at hvalue
    cases hvalue
    exact ⟨N, s₁, hrun, hquiet⟩

/-- A text is evaluated, but not if an interrupt has been sent before and is received early: then the
evaluation, which had not begun, is cancelled, and the interrupt is not reported. Nor is it if it is
received too late to cancel anything. -/
theorem evalText_interrupted :
    ((attentive (.after 0)).evalText 5 "True").map (fun r => (r.1, r.2.out.text)) =
      some (.ok (), "True\n") ∧
    ((attentive (.after 0)).interrupted.evalText 5 "True").map
      (fun r => (r.1, r.2.out.text, r.2.bridge.pending)) = some (.error .cancelled, "", false) ∧
    ((attentive (.after 1)).interrupted.evalText 5 "True").map
      (fun r => (r.1, r.2.out.text, r.2.bridge.pending)) = some (.ok (), "True\n", false) := by
  have hunit : classifyBlock Config.usual.filename "True" = .ok (.expr (.bool true)) := by cbv
  have hconfig : ∀ receipt, (attentive receipt).config = .usual := fun _ => rfl
  refine ⟨?_, ?_, ?_⟩
  all_goals
    simp only [evalText, interrupted_config, hconfig, hunit]
    rfl

end
end Session

end ScriptShell
