/-!
# ScriptShell.Interrupt

Interrupts. A channel leads from whoever notices an interrupt to the session, and holds one: more of
them count as one until it is received. While an evaluation is active a watcher listens on its
behalf, and an interrupt that the watcher receives cancels the token of that evaluation and of no
other. Between evaluations the session takes a waiting interrupt itself.

Sender, session and watchers run beside each other. What each of them does in one step that the
others can see is an event, and the events may come in any order in which they are possible
(`Bridge.next`). A watcher first waits for the receiving end, which it then keeps to itself. It
receives an interrupt, lets go of the receiving end, cancels its token and exits; or it learns that
its evaluation is complete, and exits.

* `Watcher`, `Evaluation`: an evaluation, its watcher and its token.
* `Bridge`: the channel and the evaluations.
* `Bridge.Event`, `Bridge.next`: what can happen, and what comes of it.
* `Bridge.interrupt`, `takeStale`, `begin`, `listen`, `receive`, `finish`: what the two sides do
  when nothing comes in between.
-/

namespace ScriptShell

/-- What a watcher is doing. -/
inductive Watcher where
  /-- It waits for the receiving end. -/
  | starting
  /-- It has the receiving end and waits for an interrupt. -/
  | listening
  /-- It has received an interrupt. -/
  | received
  /-- It has let go of the receiving end after that. -/
  | released
  /-- It has cancelled its token. -/
  | struck
  /-- It has let go of the receiving end because no interrupt can come any more. -/
  | deaf
  /-- It has exited and said whether there was an interrupt. -/
  | left (interrupted : Bool)
  deriving DecidableEq, Repr

namespace Watcher

/-- Does it keep the receiving end to itself? -/
def hasReceiver (w : Watcher) : Bool := w = .listening || w = .received

/-- Does it still have to do with the channel? -/
def isThere : Watcher → Bool
  | .left _ => false
  | _ => true

/-- Has it received nothing so far and not exited? -/
def isWaiting (w : Watcher) : Bool := w = .starting || w = .listening || w = .deaf

end Watcher

/-- An evaluation with its watcher and its token. -/
structure Evaluation where
  watcher : Watcher
  /-- Has it been signalled that it is complete? -/
  done : Bool
  /-- What was said of it at its end: was it interrupted? -/
  finished : Option Bool
  /-- Is its token cancelled? -/
  cancelled : Bool
  deriving DecidableEq, Repr

/-- What happens to an evaluation. The session completes and finishes it, anyone who has its token
may cancel that, and the rest is done by the watcher. -/
inductive Act where
  /-- Take the receiving end. -/
  | lock
  | receive
  /-- Let go of the receiving end, after an interrupt has been received. -/
  | release
  /-- Cancel the token, after that. -/
  | strike
  /-- Let go of the receiving end, as no interrupt can come any more. -/
  | giveUp
  /-- Exit: after the token has been cancelled, or because the evaluation is complete. -/
  | leave (interrupted : Bool)
  /-- Signal that the evaluation is complete. -/
  | complete
  /-- Say, after the watcher has exited, whether there was an interrupt. -/
  | finish (interrupted : Bool)
  | cancel
  deriving DecidableEq, Repr

namespace Evaluation

/-- A new evaluation. -/
def fresh : Evaluation := ⟨.starting, false, none, false⟩

/-- Let something happen to an evaluation, if it can. -/
def act (e : Evaluation) : Act → Option Evaluation
  | .lock => if e.watcher = .starting then some { e with watcher := .listening } else none
  | .receive => if e.watcher = .listening then some { e with watcher := .received } else none
  | .release => if e.watcher = .received then some { e with watcher := .released } else none
  | .strike =>
    if e.watcher = .released then some { e with watcher := .struck, cancelled := true } else none
  | .giveUp => if e.watcher = .listening then some { e with watcher := .deaf } else none
  | .leave true => if e.watcher = .struck then some { e with watcher := .left true } else none
  | .leave false =>
    if e.done && e.watcher.isWaiting then some { e with watcher := .left false } else none
  | .complete => if e.done then none else some { e with done := true }
  | .finish interrupted =>
    if e.done && e.finished.isNone && e.watcher = .left interrupted then
      some { e with finished := some interrupted }
    else none
  | .cancel => some { e with cancelled := true }

end Evaluation

/-- The channel, and the evaluations since it was made. -/
structure Bridge where
  /-- Does an interrupt wait? -/
  pending : Bool
  /-- Is the sending end still there? -/
  sender : Bool
  /-- Is the session's receiving end still there? -/
  source : Bool
  /-- In the order in which they began. -/
  evaluations : List Evaluation
  deriving DecidableEq, Repr

/-- What can happen: an interrupt is sent, and accepted or not; the session looks for one that no
evaluation is there for, and finds one or not; an evaluation begins; something happens to the `n`-th
evaluation; one of the ends goes. -/
inductive Bridge.Event where
  | interrupt (accepted : Bool)
  | takeStale (found : Bool)
  | begin
  | at (n : Nat) (a : Act)
  | dropSource
  | dropSender
  deriving DecidableEq, Repr

namespace Bridge

/-- A new channel, before the first evaluation. -/
def start : Bridge := ⟨false, true, true, []⟩

/-- Can an interrupt that is sent be received by anyone? -/
def hasReceiver (b : Bridge) : Bool :=
  b.source || b.evaluations.any (fun e => e.watcher.isThere)

/-- Does an interrupt that is sent become one that waits? -/
def accepts (b : Bridge) : Bool := b.sender && b.hasReceiver && !b.pending

/-- Does nobody keep the receiving end to himself? -/
def isFree (b : Bridge) : Bool := b.evaluations.all (fun e => !e.watcher.hasReceiver)

/-- Does the session find an interrupt when it looks for one? -/
def isStale (b : Bridge) : Bool := b.isFree && b.pending

/-- Does the channel let this happen? -/
def allows (b : Bridge) : Act → Bool
  | .lock => b.isFree
  | .receive => b.pending
  | .giveUp => !b.pending && !b.sender
  | _ => true

/-- What comes of an event, if it can happen. -/
def next (b : Bridge) : Event → Option Bridge
  | .interrupt accepted =>
    if accepted = b.accepts then some { b with pending := b.pending || accepted } else none
  | .takeStale found =>
    if b.source && found = b.isStale then some { b with pending := b.pending && !found } else none
  | .begin =>
    if b.source then some { b with evaluations := b.evaluations ++ [.fresh] } else none
  | .at n a =>
    match b.evaluations[n]? with
    | none => none
    | some e =>
      if b.allows a then
        (e.act a).map fun e =>
          { b with pending := b.pending && a ≠ .receive, evaluations := b.evaluations.set n e }
      else none
  | .dropSource => some { b with source := false }
  | .dropSender => some { b with sender := false }

/-- What comes of events that happen one after the other. -/
def after (b : Bridge) (evs : List Event) : Option Bridge := evs.foldlM next b

/-! ## One side at a time -/

/-- Let something happen if it can. -/
def attempt (b : Bridge) (ev : Event) : Bridge := (b.next ev).getD b

/-- The number of the latest evaluation. -/
def latest (b : Bridge) : Nat := b.evaluations.length - 1

/-- Let something happen to the latest evaluation if it can. -/
def actLatest (b : Bridge) (a : Act) : Bridge := b.attempt (.at b.latest a)

/-- Send an interrupt. One that waits already takes it in. -/
def interrupt (b : Bridge) : Bridge := b.attempt (.interrupt b.accepts)

/-- Take a waiting interrupt that no evaluation is there for, and say whether there was one. -/
def takeStale (b : Bridge) : Bool × Bridge := (b.isStale, b.attempt (.takeStale b.isStale))

/-- The latest evaluation is complete, and its watcher learns of it if it is still waiting. -/
def complete (b : Bridge) : Bridge := (b.actLatest .complete).actLatest (.leave false)

/-- Begin an evaluation, with a token of its own. One that is active still is given up. -/
def begin (b : Bridge) : Bridge := b.complete.attempt .begin

/-- The watcher begins to listen. -/
def listen (b : Bridge) : Bridge := b.actLatest .lock

/-- The watcher receives the waiting interrupt, if there is one, cancels its token and exits. -/
def receive (b : Bridge) : Bridge :=
  [.receive, .release, .strike, .leave true].foldl actLatest b

/-- End the active evaluation and say whether it was interrupted. -/
def finish (b : Bridge) : Option Bool × Bridge :=
  match b.evaluations.getLast? with
  | none => (none, b)
  | some e =>
    if e.finished.isSome then (none, b)
    else
      let b := b.complete
      let interrupted := b.evaluations.getLast?.any (fun e => e.watcher = .left true)
      (some interrupted, b.actLatest (.finish interrupted))

/-- The session gives up its receiving end. -/
def dropSource (b : Bridge) : Bridge := b.attempt .dropSource

/-- The sending end goes. An interrupt that waits can still be received. -/
def dropSender (b : Bridge) : Bridge := b.attempt .dropSender

end Bridge
end ScriptShell
