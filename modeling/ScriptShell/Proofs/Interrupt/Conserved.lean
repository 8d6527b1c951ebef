import Mathlib.Data.List.Count
import Mathlib.Data.List.Induction
import ScriptShell.Interrupt

/-!
# ScriptShell.Proofs.Interrupt.Conserved

No interrupt is lost or used twice, whatever order the steps of sender, session and watchers come
in.

* `Evaluation.Agrees`, `Bridge.Agrees`: an evaluation, and the whole bridge, agree with the events
  that have happened.
* `Bridge.agrees_of_after`: a bridge agrees with its history.
* `Bridge.interrupts_conserved`: the main theorem.
-/

namespace ScriptShell

/-- Has it received an interrupt? -/
def Watcher.hasReceived : Watcher → Bool
  | .received | .released | .struck | .left true => true
  | _ => false

/-- Has it cancelled its token? -/
def Watcher.hasStruck : Watcher → Bool
  | .struck | .left true => true
  | _ => false

theorem Watcher.hasReceived_of_hasStruck {w : Watcher} (h : w.hasStruck = true) :
    w.hasReceived = true := by
  unfold hasStruck at h
  split at h
  · rfl
  · rfl
  · cases h

/-- Is an interrupt received by a watcher? -/
def Bridge.Event.isReceive : Bridge.Event → Bool
  | .at _ .receive => true
  | _ => false

theorem Bridge.Event.isReceive_at (n : Nat) (a : Act) :
    (Bridge.Event.at n a).isReceive = decide (a = .receive) := by
  cases a <;> rfl

open Bridge (Event)

/-! ## One evaluation -/

/-- The `n`-th evaluation agrees with the events: it is known from them whether its watcher has
received an interrupt, whether its token is cancelled, and what has been said of it at its end. -/
structure Evaluation.Agrees (evs : List Event) (n : Nat) (e : Evaluation) : Prop where
  received : evs.count (.at n .receive) = if e.watcher.hasReceived then 1 else 0
  cancelled : e.cancelled = true ↔ e.watcher.hasStruck = true ∨ Event.at n .cancel ∈ evs
  finished : ∀ i, e.finished = some i ↔ Event.at n (.finish i) ∈ evs
  ended : ∀ i, e.finished = some i → e.watcher = .left i ∧ e.done = true

namespace Evaluation.Agrees

variable {evs : List Event} {n : Nat} {e e' : Evaluation}

theorem fresh (h : ∀ a, Event.at n a ∉ evs) : Evaluation.fresh.Agrees evs n where
  received := List.count_eq_zero.2 (h .receive)
  cancelled := ⟨nofun, fun hc => (hc.resolve_left nofun |> h .cancel).elim⟩
  finished i := ⟨nofun, fun hf => (h (.finish i) hf).elim⟩
  ended := nofun

/-- What does not concern the evaluation. -/
theorem other (h : e.Agrees evs n) {ev : Event} (hev : ∀ a, ev ≠ .at n a) :
    e.Agrees (evs ++ [ev]) n := by
  have hmem : ∀ a, Event.at n a ∈ evs ++ [ev] ↔ Event.at n a ∈ evs := by
    intro a
    rw [List.mem_append, List.mem_singleton]
    exact or_iff_left fun heq => hev a heq.symm
  refine ⟨?_, ?_, fun i => ?_, h.ended⟩
  · rw [List.count_append, List.count_singleton, beq_false_of_ne (hev .receive)]
    exact h.received
  · rw [hmem]
    exact h.cancelled
  · rw [hmem]
    exact h.finished i

theorem mem_snoc {a b : Act} : Event.at n b ∈ evs ++ [.at n a] ↔ Event.at n b ∈ evs ∨ b = a := by
  rw [List.mem_append, List.mem_singleton, Event.at.injEq, eq_self, true_and]

theorem received_snoc {a : Act} (h : e.Agrees evs n) (ha : a ≠ .receive) :
    (evs ++ [Event.at n a]).count (.at n .receive) =
      if e.watcher.hasReceived then 1 else 0 := by
  have hne : Event.at n a ≠ .at n .receive := fun heq => ha (Event.at.inj heq).2
  rw [List.count_append, List.count_singleton, beq_false_of_ne hne]
  exact h.received

theorem cancelled_snoc {a : Act} (h : e.Agrees evs n) (ha : a ≠ .cancel) :
    e.cancelled = true ↔ e.watcher.hasStruck = true ∨ Event.at n .cancel ∈ evs ++ [.at n a] := by
  rw [mem_snoc, or_iff_left ha.symm]
  exact h.cancelled

theorem finished_snoc {a : Act} (h : e.Agrees evs n) {i : Bool} (ha : a ≠ .finish i) :
    e.finished = some i ↔ Event.at n (.finish i) ∈ evs ++ [.at n a] := by
  rw [mem_snoc, or_iff_left ha.symm]
  exact h.finished i

/-- Nothing has been said of an evaluation whose watcher is there. -/
theorem finished_ne (h : e.Agrees evs n) (hw : ∀ i, e.watcher ≠ .left i) (i : Bool) :
    e.finished ≠ some i :=
  fun hf => hw i (h.ended i hf).1

/-- The watcher goes on, or the evaluation is complete: nothing is received, no token is cancelled
and nothing is said. -/
theorem move {a : Act} (h : e.Agrees evs n) (w : Watcher) (d : Bool)
    (hreceived : w.hasReceived = e.watcher.hasReceived)
    (hstruck : w.hasStruck = e.watcher.hasStruck)
    (hover : ∀ i, e.finished = some i → w = .left i ∧ d = true)
    (hr : a ≠ .receive) (hc : a ≠ .cancel) (hf : ∀ i, a ≠ .finish i) :
    Evaluation.Agrees (evs ++ [.at n a]) n { e with watcher := w, done := d } where
  received := hreceived ▸ h.received_snoc hr
  cancelled := hstruck ▸ h.cancelled_snoc hc
  finished i := h.finished_snoc (hf i)
  ended := hover

theorem act {a : Act} (h : e.Agrees evs n) (ha : e.act a = some e') :
    e'.Agrees (evs ++ [.at n a]) n := by
  -- the watcher is at a known place in every act of its own, so nothing has been said yet
  match a, ha with
  | .lock, ha | .release, ha | .giveUp, ha | .leave true, ha =>
    simp only [Evaluation.act, Option.ite_none_right_eq_some] at ha
    obtain ⟨hw, ha⟩ := ha
    cases ha
    refine h.move _ _ ?_ ?_ (fun i hf => absurd hf (h.finished_ne ?_ i)) nofun nofun nofun
    all_goals
      rw [hw]
      first | rfl | exact nofun
  | .leave false, ha =>
    simp only [Evaluation.act, Option.ite_none_right_eq_some, Bool.and_eq_true] at ha
    obtain ⟨⟨-, hw⟩, ha⟩ := ha
    cases ha
    simp only [Watcher.isWaiting, Bool.or_eq_true, decide_eq_true_eq] at hw
    refine h.move _ _ ?_ ?_ (fun i hf => absurd hf (h.finished_ne ?_ i)) nofun nofun nofun
    all_goals
      rcases hw with (hw | hw) | hw
      all_goals
        rw [hw]
        first | rfl | exact nofun
  | .complete, ha =>
    simp only [Evaluation.act, Option.ite_none_left_eq_some] at ha
    obtain ⟨-, ha⟩ := ha
    cases ha
    exact h.move e.watcher true rfl rfl (fun i hf => ⟨(h.ended i hf).1, rfl⟩) nofun nofun nofun
  | .receive, ha =>
    simp only [Evaluation.act, Option.ite_none_right_eq_some] at ha
    obtain ⟨hw, ha⟩ := ha
    cases ha
    refine ⟨?_, ?_, fun i => h.finished_snoc nofun, fun i hf => absurd hf (h.finished_ne ?_ i)⟩
    · rw [List.count_append, h.received, hw]
      simp [Watcher.hasReceived]
    · have hc := h.cancelled_snoc (a := .receive) nofun
      rw [hw] at hc
      exact hc
    · rw [hw]
      exact nofun
  | .strike, ha =>
    simp only [Evaluation.act, Option.ite_none_right_eq_some] at ha
    obtain ⟨hw, ha⟩ := ha
    cases ha
    refine ⟨?_, iff_of_true rfl (.inl rfl), fun i => h.finished_snoc nofun,
      fun i hf => absurd hf (h.finished_ne ?_ i)⟩
    · have hr := h.received_snoc (a := .strike) nofun
      rw [hw] at hr
      exact hr
    · rw [hw]
      exact nofun
  | .finish i, ha =>
    simp only [Evaluation.act, Option.ite_none_right_eq_some, Bool.and_eq_true,
      decide_eq_true_eq, Option.isNone_iff_eq_none] at ha
    obtain ⟨⟨⟨hdone, hnone⟩, hw⟩, ha⟩ := ha
    cases ha
    refine ⟨h.received_snoc (a := .finish i) nofun, h.cancelled_snoc nofun, fun j => ?_,
      fun j hj => ?_⟩
    · rw [mem_snoc, ← h.finished, hnone]
      simp [eq_comm]
    · cases hj
      exact ⟨hw, hdone⟩
  | .cancel, ha =>
    cases ha
    exact ⟨h.received_snoc (a := .cancel) nofun, iff_of_true rfl (.inr (mem_snoc.2 (.inr rfl))),
      fun i => h.finished_snoc nofun, h.ended⟩

end Evaluation.Agrees

/-- What cancels a token is the step of the watcher behind its receipt, or somebody else. -/
theorem Evaluation.strike_of_cancelled {e e' : Evaluation} {a : Act} (ha : e.act a = some e')
    (hc : e.cancelled = false) (hc' : e'.cancelled = true) (hne : a ≠ .cancel) :
    a = .strike ∧ e.watcher = .released := by
  match a, ha with
  | .cancel, _ => exact absurd rfl hne
  | .strike, ha =>
    simp only [act, Option.ite_none_right_eq_some] at ha
    exact ⟨rfl, ha.1⟩
  | .complete, ha =>
    simp only [act, Option.ite_none_left_eq_some] at ha
    obtain ⟨-, ha⟩ := ha
    cases ha
    exact nomatch hc.symm.trans hc'
  | .lock, ha | .receive, ha | .release, ha | .giveUp, ha | .leave true, ha | .leave false, ha
  | .finish _, ha =>
    simp only [act, Option.ite_none_right_eq_some] at ha
    obtain ⟨-, ha⟩ := ha
    cases ha
    exact nomatch hc.symm.trans hc'

/-! ## The bridge -/

namespace Bridge

/-- The bridge agrees with the events that have happened since it was made. -/
structure Agrees (evs : List Event) (b : Bridge) : Prop where
  conserved : evs.count (.interrupt true) =
    evs.countP Event.isReceive + evs.count (.takeStale true) + b.pending.toNat
  received : evs.countP Event.isReceive =
    b.evaluations.countP fun e => e.watcher.hasReceived
  evaluations : ∀ {n : Nat} {e : Evaluation}, b.evaluations[n]? = some e → e.Agrees evs n
  begun : ∀ {n : Nat} {a : Act}, Event.at n a ∈ evs → n < b.evaluations.length

theorem next_at {b b' : Bridge} {n : Nat} {a : Act} (h : b.next (.at n a) = some b') :
    ∃ e e', b.evaluations[n]? = some e ∧ b.allows a = true ∧ e.act a = some e' ∧
      b' = { b with
        pending := b.pending && a ≠ .receive, evaluations := b.evaluations.set n e' } := by
  simp only [next] at h
  cases he : b.evaluations[n]? with
  | none =>
    rw [he] at h
    cases h
  | some e =>
    rw [he] at h
    simp only [Option.ite_none_right_eq_some, Option.map_eq_some_iff] at h
    obtain ⟨hallows, e', hact, rfl⟩ := h
    exact ⟨e, e', rfl, hallows, hact, rfl⟩

theorem isFree_of_left {b : Bridge} (h : ∀ e ∈ b.evaluations, ∃ i, e.watcher = .left i) :
    b.isFree = true := by
  rw [isFree, List.all_eq_true]
  intro e he
  obtain ⟨i, hw⟩ := h e he
  rw [hw]
  rfl

namespace Agrees

variable {evs : List Event} {b b' : Bridge} {ev : Event}

theorem start : Bridge.start.Agrees [] where
  conserved := rfl
  received := rfl
  evaluations he := nomatch he
  begun := nofun

/-- Events that no evaluation has to do with. -/
theorem elsewhere (h : b.Agrees evs) (hev : ∀ n a, ev ≠ .at n a)
    (hevals : b'.evaluations = b.evaluations)
    (hc : [ev].count (.interrupt true) + b.pending.toNat =
      [ev].count (.takeStale true) + b'.pending.toNat) : b'.Agrees (evs ++ [ev]) := by
  have hreceive : [ev].countP Event.isReceive = 0 := by
    cases ev with
    | «at» n a => exact absurd rfl (hev n a)
    | _ => rfl
  exact {
    conserved := by
      have := h.conserved
      rw [List.count_append, List.count_append, List.countP_append, hreceive]
      omega
    received := by
      rw [List.countP_append, hreceive, hevals]
      exact h.received
    evaluations := by
      rw [hevals]
      exact fun he => (h.evaluations he).other (hev _)
    begun := by
      rw [hevals]
      intro n a hmem
      rcases List.mem_append.1 hmem with hmem | hmem
      · exact h.begun hmem
      · exact absurd (List.mem_singleton.1 hmem).symm (hev n a) }

theorem begin (h : b.Agrees evs) :
    Agrees (evs ++ [.begin]) { b with evaluations := b.evaluations ++ [.fresh] } where
  conserved := by
    have := h.conserved
    rw [List.count_append, List.count_append, List.countP_append]
    exact this
  received := by
    rw [List.countP_append, List.countP_append]
    exact h.received
  evaluations := by
    intro n e he
    rw [List.getElem?_append] at he
    split at he
    · exact (h.evaluations he).other nofun
    · rename_i hlt
      obtain rfl : Evaluation.fresh = e := by
        rw [List.getElem?_singleton] at he
        split at he
        · exact Option.some.inj he
        · cases he
      refine .fresh fun a hmem => ?_
      rcases List.mem_append.1 hmem with hmem | hmem
      · exact hlt (h.begun hmem)
      · exact nomatch List.mem_singleton.1 hmem
  begun := by
    intro n a hmem
    rw [List.length_append]
    rcases List.mem_append.1 hmem with hmem | hmem
    · exact Nat.lt_add_right _ (h.begun hmem)
    · exact nomatch List.mem_singleton.1 hmem

/-- An interrupt is pending until the watcher of an evaluation receives it. -/
theorem conserved_at {n : Nat} {a : Act} (h : b.Agrees evs) (hallows : b.allows a = true) :
    (evs ++ [Event.at n a]).count (.interrupt true) =
      (evs ++ [Event.at n a]).countP Event.isReceive +
        (evs ++ [Event.at n a]).count (.takeStale true) +
          (b.pending && decide (a ≠ .receive)).toNat := by
  have hconserved := h.conserved
  rw [List.count_append, List.count_append, List.countP_append, List.countP_singleton,
    Event.isReceive_at]
  change _ + 0 = _ + (_ + 0) + _
  by_cases ha : a = .receive
  · subst ha
    have hpending : b.pending = true := hallows
    rw [hpending, Bool.toNat_true] at hconserved
    simp only [ne_eq, not_true_eq_false, decide_false, Bool.and_false, decide_true, if_true,
      Bool.toNat_false]
    omega
  · simpa [ha] using hconserved

/-- One more watcher has received an interrupt just if this is the event. -/
theorem received_at {n : Nat} {a : Act} {e e' : Evaluation} (h : b.Agrees evs)
    (he : b.evaluations[n]? = some e) (he' : e'.Agrees (evs ++ [.at n a]) n) :
    (evs ++ [Event.at n a]).countP Event.isReceive =
      (b.evaluations.set n e').countP fun e => e.watcher.hasReceived := by
  obtain ⟨hlt, hget⟩ := List.getElem?_eq_some_iff.1 he
  have hcount : (if e'.watcher.hasReceived then 1 else 0) =
      (if e.watcher.hasReceived then 1 else 0) + if a = .receive then 1 else 0 := by
    rw [← he'.received, ← (h.evaluations he).received, List.count_append, List.count_singleton]
    simp
  have hpos : e.watcher.hasReceived = true →
      0 < b.evaluations.countP fun e => e.watcher.hasReceived :=
    fun hp => List.countP_pos_iff.2 ⟨e, hget ▸ List.getElem_mem hlt, hp⟩
  rw [List.countP_append, List.countP_singleton, Event.isReceive_at, List.countP_set hlt, hget,
    hcount, h.received]
  by_cases hp : e.watcher.hasReceived = true
  · have := hpos hp
    simp only [hp, if_true, decide_eq_true_eq]
    omega
  · simp [hp]

theorem at_ {n : Nat} {a : Act} (h : b.Agrees evs) (hb : b.next (.at n a) = some b') :
    b'.Agrees (evs ++ [.at n a]) := by
  obtain ⟨e, e', he, hallows, hact, rfl⟩ := next_at hb
  have hlt : n < b.evaluations.length := (List.getElem?_eq_some_iff.1 he).1
  have hagrees := (h.evaluations he).act hact
  exact {
    conserved := h.conserved_at hallows
    received := h.received_at he hagrees
    evaluations := by
      intro k u hu
      rw [List.getElem?_set] at hu
      split at hu
      · rename_i heq
        cases hu
        exact heq ▸ hagrees
      · rename_i hne
        exact (h.evaluations hu).other fun _ heq => hne (Event.at.inj heq).1
    begun := by
      intro k c hmem
      rw [List.length_set]
      rcases List.mem_append.1 hmem with hmem | hmem
      · exact h.begun hmem
      · exact (Event.at.inj (List.mem_singleton.1 hmem)).1 ▸ hlt }

theorem next (h : b.Agrees evs) (hb : b.next ev = some b') : b'.Agrees (evs ++ [ev]) := by
  cases ev with
  | interrupt accepted =>
    simp only [Bridge.next, Option.ite_none_right_eq_some] at hb
    obtain ⟨haccepts, hb⟩ := hb
    cases hb
    refine h.elsewhere nofun rfl ?_
    cases accepted with
    | true =>
      have hpending : b.pending = false := by
        simp only [accepts, Bool.true_eq, Bool.and_eq_true, Bool.not_eq_true'] at haccepts
        exact haccepts.2
      rw [hpending]
      rfl
    | false =>
      rw [Bool.or_false]
      rfl
  | takeStale found =>
    simp only [Bridge.next, Option.ite_none_right_eq_some, Bool.and_eq_true,
      decide_eq_true_eq] at hb
    obtain ⟨⟨-, hfound⟩, hb⟩ := hb
    cases hb
    refine h.elsewhere nofun rfl ?_
    cases found with
    | true =>
      have hpending : b.pending = true := by
        simp only [isStale, Bool.true_eq, Bool.and_eq_true] at hfound
        exact hfound.2
      rw [hpending]
      rfl
    | false =>
      rw [Bool.not_false, Bool.and_true]
      rfl
  | begin =>
    simp only [Bridge.next, Option.ite_none_right_eq_some] at hb
    obtain ⟨-, hb⟩ := hb
    cases hb
    exact h.begin
  | «at» n a => exact h.at_ hb
  | dropSource =>
    cases hb
    exact h.elsewhere nofun rfl rfl
  | dropSender =>
    cases hb
    exact h.elsewhere nofun rfl rfl

end Agrees

/-! ## Every history -/

section
variable {evs : List Event} {b b' : Bridge} {ev : Event} {n : Nat} {i : Bool}

theorem after_concat (b : Bridge) (evs : List Event) (ev : Event) :
    b.after (evs ++ [ev]) = (b.after evs).bind fun b => b.next ev := by
  rw [after, List.foldlM_append]
  simp only [List.foldlM_cons, List.foldlM_nil, bind_pure]
  rfl

theorem agrees_of_after (h : start.after evs = some b) : b.Agrees evs := by
  induction evs using List.reverseRecOn generalizing b with
  | nil =>
    cases h
    exact .start
  | append_singleton evs ev ih =>
    rw [after_concat, Option.bind_eq_some_iff] at h
    obtain ⟨b₁, hb₁, hb⟩ := h
    exact (ih hb₁).next hb

/-- Is the token of the `n`-th evaluation cancelled? -/
def isCancelled (b : Bridge) (n : Nat) : Bool := b.evaluations[n]?.any fun e => e.cancelled

/-- No evaluation is active: all have been finished. -/
def isIdle (b : Bridge) : Bool := b.evaluations.all fun e => e.finished.isSome

namespace Agrees

/-- The evaluation that something has been said of. -/
theorem of_finish (h : b.Agrees evs) (hf : Event.at n (.finish i) ∈ evs) :
    ∃ e, b.evaluations[n]? = some e ∧ e.Agrees evs n ∧ e.watcher = .left i := by
  obtain ⟨e, he⟩ : ∃ e, b.evaluations[n]? = some e :=
    ⟨_, List.getElem?_eq_getElem (h.begun hf)⟩
  have hagrees := h.evaluations he
  exact ⟨e, he, hagrees, (hagrees.ended i ((hagrees.finished i).2 hf)).1⟩

theorem finish_iff (h : b.Agrees evs) (hf : Event.at n (.finish i) ∈ evs) :
    i = true ↔ Event.at n .receive ∈ evs := by
  obtain ⟨e, -, hagrees, hw⟩ := h.of_finish hf
  rw [← List.count_pos_iff, hagrees.received, hw]
  cases i <;> decide

theorem isCancelled_of_finish (h : b.Agrees evs) (hf : Event.at n (.finish i) ∈ evs)
    (hc : Event.at n .cancel ∉ evs) : b.isCancelled n = i := by
  obtain ⟨e, he, hagrees, hw⟩ := h.of_finish hf
  rw [isCancelled, he, Option.any_some, Bool.eq_iff_iff, hagrees.cancelled, hw, or_iff_left hc]
  cases i <;> decide

theorem count_receive_le (h : b.Agrees evs) (n : Nat) : evs.count (.at n .receive) ≤ 1 := by
  by_cases hmem : Event.at n .receive ∈ evs
  · rw [(h.evaluations (List.getElem?_eq_getElem (h.begun hmem))).received]
    split <;> decide
  · rw [List.count_eq_zero.2 hmem]
    exact Nat.zero_le 1

/-- A token that nobody else cancels is cancelled by its own watcher. -/
theorem strike_of_cancelled (h : b.Agrees evs) (hb : b.next ev = some b')
    (hc : b.isCancelled n = false) (hc' : b'.isCancelled n = true) (hev : ev ≠ .at n .cancel) :
    ev = .at n .strike ∧ Event.at n .receive ∈ evs := by
  -- only an event that changes the evaluation can be the one
  have hsame : b'.evaluations[n]? ≠ b.evaluations[n]? := by
    intro heq
    rw [isCancelled, heq, ← isCancelled, hc] at hc'
    cases hc'
  cases ev with
  | «at» m a =>
    obtain ⟨e, e', he, -, hact, rfl⟩ := next_at hb
    obtain rfl : m = n := by
      by_contra hne
      exact hsame (List.getElem?_set_ne hne)
    have hlt := (List.getElem?_eq_some_iff.1 he).1
    rw [isCancelled, he, Option.any_some] at hc
    rw [isCancelled, List.getElem?_set_self hlt, Option.any_some] at hc'
    obtain ⟨rfl, hw⟩ := Evaluation.strike_of_cancelled hact hc hc' fun ha => hev (ha ▸ rfl)
    refine ⟨rfl, List.count_pos_iff.1 ?_⟩
    rw [(h.evaluations he).received, hw]
    decide
  | begin =>
    simp only [Bridge.next, Option.ite_none_right_eq_some] at hb
    obtain ⟨-, hb⟩ := hb
    cases hb
    rw [isCancelled, List.getElem?_append] at hc'
    split at hc'
    · exact nomatch hc.symm.trans hc'
    · rw [List.getElem?_singleton] at hc'
      split at hc' <;> exact nomatch hc'
  | interrupt accepted =>
    simp only [Bridge.next, Option.ite_none_right_eq_some] at hb
    obtain ⟨-, hb⟩ := hb
    cases hb
    exact absurd rfl hsame
  | takeStale found =>
    simp only [Bridge.next, Option.ite_none_right_eq_some] at hb
    obtain ⟨-, hb⟩ := hb
    cases hb
    exact absurd rfl hsame
  | dropSource | dropSender =>
    cases hb
    exact absurd rfl hsame

theorem cancelled_le_received (h : b.Agrees evs) :
    (b.evaluations.zipIdx.countP fun e => e.1.cancelled && !evs.contains (.at e.2 .cancel)) ≤
      evs.countP Event.isReceive := by
  have hcount : (b.evaluations.zipIdx.countP fun e => e.1.watcher.hasReceived) =
      evs.countP Event.isReceive := by
    rw [h.received, ← List.zipIdx_map_fst 0 b.evaluations, List.countP_map]
    simp only [List.zipIdx_map_fst]
    rfl
  rw [← hcount]
  refine List.countP_mono_left fun ⟨e, k⟩ hmem hp => ?_
  simp only [Bool.and_eq_true, Bool.not_eq_true', List.contains_eq_mem,
    decide_eq_false_iff_not] at hp
  have hagrees := h.evaluations (List.mem_zipIdx_iff_getElem?.1 hmem)
  exact Watcher.hasReceived_of_hasStruck ((hagrees.cancelled.1 hp.1).resolve_right hp.2)

theorem over_of_isIdle (h : b.Agrees evs) (hidle : b.isIdle = true) {e : Evaluation}
    (he : e ∈ b.evaluations) : ∃ i, e.watcher = .left i ∧ e.done = true ∧ e.finished = some i := by
  obtain ⟨n, he'⟩ := List.getElem?_of_mem he
  obtain ⟨i, hi⟩ := Option.isSome_iff_exists.1 (List.all_eq_true.1 hidle e he)
  obtain ⟨hw, hdone⟩ := (h.evaluations he').ended i hi
  exact ⟨i, hw, hdone, hi⟩

theorem isStale_of_isIdle (h : b.Agrees evs) (hidle : b.isIdle = true) : b.isStale = b.pending := by
  have hfree : b.isFree = true :=
    isFree_of_left fun e he => (h.over_of_isIdle hidle he).imp fun _ hover => hover.1
  rw [isStale, hfree, Bool.true_and]

end Agrees

/-- Sender, session and watchers may take their steps in any order, and any number of evaluations
may have begun. Every interrupt that was accepted has been received by one watcher or taken by the
session, or waits. At its end an evaluation is said to have been interrupted if its own watcher has
received an interrupt. A token that nobody else cancels is cancelled by the watcher behind such a
receipt, and not when the end has come: so there are no more of these tokens than receipts. When
all evaluations are finished the session finds an interrupt if one waits. -/
theorem interrupts_conserved (h : start.after evs = some b) :
    evs.count (.interrupt true) =
      evs.countP Event.isReceive + evs.count (.takeStale true) + b.pending.toNat ∧
    (∀ n i, Event.at n (.finish i) ∈ evs → (i = true ↔ Event.at n .receive ∈ evs)) ∧
    (∀ n ev b', b.next ev = some b' → b.isCancelled n = false → b'.isCancelled n = true →
      ev ≠ .at n .cancel → ev = .at n .strike ∧ Event.at n .receive ∈ evs) ∧
    (∀ n i, Event.at n (.finish i) ∈ evs → Event.at n .cancel ∉ evs → b.isCancelled n = i) ∧
    (∀ n, evs.count (.at n .receive) ≤ 1) ∧
    (b.evaluations.zipIdx.countP fun e => e.1.cancelled && !evs.contains (.at e.2 .cancel)) ≤
      evs.countP Event.isReceive ∧
    (b.isIdle = true → b.source = true →
      ∀ found, (b.next (.takeStale found)).isSome = true ↔ found = b.pending) := by
  have hb := agrees_of_after h
  refine ⟨hb.conserved, fun _ _ => hb.finish_iff, fun _ _ _ => hb.strike_of_cancelled,
    fun _ _ => hb.isCancelled_of_finish, hb.count_receive_le, hb.cancelled_le_received, ?_⟩
  intro hidle hsource found
  rw [next, hsource, hb.isStale_of_isIdle hidle]
  simp

/-- The first evaluation is interrupted, the second is over when the interrupt comes. -/
def lateInterrupt : List Event :=
  [.begin, .at 0 .lock, .interrupt true, .interrupt false, .at 0 .receive, .at 0 .release,
    .at 0 .complete, .at 0 .strike, .at 0 (.leave true), .at 0 (.finish true),
    .begin, .at 1 .lock, .at 1 .complete, .interrupt true, .takeStale false,
    .at 1 (.leave false), .at 1 (.finish false), .takeStale true]

/-- The bridge after that. -/
def afterLate : Bridge :=
  ⟨false, true, true,
    [⟨.left true, true, some true, true⟩, ⟨.left false, true, some false, false⟩]⟩

theorem interrupts_conserved_late : start.after lateInterrupt = some afterLate ∧
    lateInterrupt.count (.interrupt true) = lateInterrupt.countP Event.isReceive +
      lateInterrupt.count (.takeStale true) + afterLate.pending.toNat ∧
    afterLate.isCancelled 0 = true ∧ afterLate.isCancelled 1 = false ∧
    ∀ found, (afterLate.next (.takeStale found)).isSome = true ↔ found = afterLate.pending := by
  have hafter : start.after lateInterrupt = some afterLate := by decide
  obtain ⟨hconserved, -, -, hcancelled, -, -, hstale⟩ := interrupts_conserved hafter
  exact ⟨hafter, hconserved, hcancelled 0 true (by decide) (by decide),
    hcancelled 1 false (by decide) (by decide), hstale (by decide) (by decide)⟩

end

/-! ## One side at a time

What the two sides do when nothing comes in between is a run of events too. -/

/-- The bridge has come about by events. -/
def Happened (b : Bridge) : Prop := ∃ evs, start.after evs = some b

namespace Happened

variable {b : Bridge}

theorem start : Bridge.start.Happened := ⟨[], rfl⟩

theorem attempt (h : b.Happened) (ev : Event) : (b.attempt ev).Happened := by
  rw [Bridge.attempt]
  cases hb : b.next ev with
  | none => exact h
  | some b' =>
    obtain ⟨evs, hevs⟩ := h
    exact ⟨evs ++ [ev], by rw [after_concat, hevs, Option.bind_some, hb]; rfl⟩

theorem interrupt (h : b.Happened) : b.interrupt.Happened := h.attempt _

theorem takeStale (h : b.Happened) : b.takeStale.2.Happened := h.attempt _

theorem complete (h : b.Happened) : b.complete.Happened := (h.attempt _).attempt _

theorem begin (h : b.Happened) : b.begin.Happened := h.complete.attempt _

theorem listen (h : b.Happened) : b.listen.Happened := h.attempt _

theorem receive (h : b.Happened) : b.receive.Happened :=
  (((h.attempt _).attempt _).attempt _).attempt _

theorem finish (h : b.Happened) : b.finish.2.Happened := by
  rw [Bridge.finish]
  split
  · exact h
  · split
    · exact h
    · exact h.complete.attempt _

end Happened

end Bridge

end ScriptShell
