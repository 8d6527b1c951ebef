import ScriptShell.Proofs.Eval.Allowance
import ScriptShell.Proofs.Session.Typed

/-!
# ScriptShell.Proofs.Session.Script

What a session reads of a script, which is a list of lines and of reasons why there is no line. How
far it reads, behind which prompts and what it returns depend on the script alone: not on what the
units evaluate to, and not on whether what is printed can be written.

* `Answer.ends?`, `awaits`: what a single answer does to the session, and what the answers so far do
  to the prompt.
* `consume`: how a script is read, answer by answer.
* `Session.next`, `Session.turn_eq`: a turn is reading, and dealing with what was read.
* `Session.Alike.run`: sessions that differ in what was written run alike.
* `Session.next_quiet`: without interrupts, a unit is read as the script says.
* `Session.run_consume`: a run of which all evaluations end reads its script so.
* `Session.turn_cut`: a block that is cut short leaves nothing behind but a line.
* `Session.run_script`: the main theorem.
-/

namespace ScriptShell

/-! ## Scripts -/

/-- The answer to a request for a line. -/
abbrev Answer := Except ReadError String

/-- The answer comes without an interrupt. -/
def Answer.quiet (a : Answer) : Delivery := ⟨a, false⟩

/-- How the session ends with this answer, if it does. -/
def Answer.ends? : Answer → Option (Except ReadError Unit)
  | .ok _ | .error .interrupted => none
  | .error .endOfInput => some (.ok ())
  | .error (.io reason) => some (.error (.io reason))

/-- Is a block being read behind this answer? -/
def awaitsAfter (inBlock : Bool) : Answer → Bool
  | .error _ => false
  | .ok line =>
    if inBlock then !Text.isBlankLine line
    else !Session.isIdle line && (classifyLine line).isNone

/-- Is a block being read behind these answers? -/
def awaits (answers : List Answer) : Bool := answers.foldl awaitsAfter false

/-- The prompt that is shown, in a block or not. -/
def Config.promptIn (c : Config) (inBlock : Bool) : String :=
  if inBlock then c.continuation else c.prompt

/-- The prompts of the requests up to the `n`-th. -/
def Config.promptsFor (c : Config) (script : List Answer) (n : Nat) : List String :=
  (List.range (n + 1)).map fun k => c.promptIn (awaits (script.take k))

/-- How a script is read: what the session returns, and the input it leaves. -/
def consume (c : Config) : Bool → List String → List Answer → Except ReadError Unit × Input
  | inBlock, shown, [] => (.ok (), ⟨[], c.promptIn inBlock :: shown⟩)
  | inBlock, shown, a :: rest =>
    match a.ends? with
    | some outcome => (outcome, ⟨rest.map Answer.quiet, c.promptIn inBlock :: shown⟩)
    | none => consume c (awaitsAfter inBlock a) (c.promptIn inBlock :: shown) rest

/-- The answer to a request. The end of the script counts as the end of the input. -/
def answerTo (script : List Answer) (k : Nat) : Answer := script[k]?.getD (.error .endOfInput)

/-- The `n`-th answer ends the session, and there is none before that does. -/
structure EndsAt (script : List Answer) (n : Nat) (outcome : Except ReadError Unit) : Prop where
  le : n ≤ script.length
  before : ∀ a ∈ script.take n, a.ends? = none
  ends : (answerTo script n).ends? = some outcome

section
variable {c : Config} {inBlock : Bool} {shown : List String} {a : Answer} {rest : List Answer}

theorem consume_cons_of_none (h : a.ends? = none) :
    consume c inBlock shown (a :: rest) =
      consume c (awaitsAfter inBlock a) (c.promptIn inBlock :: shown) rest := by
  rw [consume, h]

theorem consume_cons_of_some {outcome : Except ReadError Unit} (h : a.ends? = some outcome) :
    consume c inBlock shown (a :: rest) =
      (outcome, ⟨rest.map Answer.quiet, c.promptIn inBlock :: shown⟩) := by
  rw [consume, h]

/-- A script is read up to the first answer that ends the session, each answer behind the prompt
that those before it lead to. -/
theorem consume_eq (c : Config) (inBlock : Bool) (shown : List String) (script : List Answer) :
    ∃ n outcome, EndsAt script n outcome ∧ consume c inBlock shown script =
      (outcome, ⟨(script.drop (n + 1)).map Answer.quiet, ((List.range (n + 1)).map fun k =>
        c.promptIn ((script.take k).foldl awaitsAfter inBlock)).reverse ++ shown⟩) := by
  induction script generalizing inBlock shown with
  | nil => exact ⟨0, .ok (), ⟨Nat.le_refl _, by simp, rfl⟩, rfl⟩
  | cons a rest ih =>
    cases ha : a.ends? with
    | some outcome => exact ⟨0, outcome, ⟨Nat.zero_le _, by simp, ha⟩, consume_cons_of_some ha⟩
    | none =>
      obtain ⟨n, outcome, hends, heq⟩ := ih (awaitsAfter inBlock a) (c.promptIn inBlock :: shown)
      refine ⟨n + 1, outcome, ⟨Nat.succ_le_succ hends.le, ?_, ?_⟩, ?_⟩
      · rw [List.take_succ_cons]
        exact List.forall_mem_cons.2 ⟨ha, hends.before⟩
      · rw [answerTo, List.getElem?_cons_succ]
        exact hends.ends
      · rw [consume_cons_of_none ha, heq, List.drop_succ_cons, List.range_succ_eq_map (n := n + 1),
          List.map_cons, List.map_map, List.reverse_cons, List.append_assoc]
        rfl

end

/-- A block is being read when a line was read outside every block that is not idle and no unit by
itself, and since then lines only that are not blank. -/
theorem awaits_eq_true_iff (answers : List Answer) : awaits answers = true ↔
    ∃ before line since, answers = before ++ .ok line :: since ∧ awaits before = false ∧
      Session.isIdle line = false ∧ classifyLine line = none ∧
      ∀ a ∈ since, ∃ l, a = .ok l ∧ Text.isBlankLine l = false := by
  have hconcat : ∀ (as : List Answer) a, awaits (as ++ [a]) = awaitsAfter (awaits as) a := by
    intro as a
    rw [awaits, List.foldl_concat]
    rfl
  constructor
  · intro h
    induction answers using List.reverseRecOn with
    | nil => cases h
    | append_singleton as a ih =>
      rw [hconcat] at h
      cases a with
      | error e => cases h
      | ok l =>
        cases hin : awaits as with
        | true =>
          obtain ⟨before, line, since, rfl, hbefore, hidle, hu, hsince⟩ := ih hin
          refine ⟨before, line, since ++ [.ok l], by simp, hbefore, hidle, hu, ?_⟩
          refine List.forall_mem_append.2 ⟨hsince, List.forall_mem_singleton.2 ⟨l, rfl, ?_⟩⟩
          simpa [awaitsAfter, hin] using h
        | false =>
          have hopen : Session.isIdle l = false ∧ classifyLine l = none := by
            simpa [awaitsAfter, hin] using h
          exact ⟨as, l, [], rfl, hin, hopen.1, hopen.2, by simp⟩
  · rintro ⟨before, line, since, rfl, hbefore, hidle, hu, hsince⟩
    induction since using List.reverseRecOn with
    | nil =>
      rw [hconcat, hbefore]
      simp [awaitsAfter, hidle, hu]
    | append_singleton as a ih =>
      obtain ⟨has, ha⟩ := List.forall_mem_append.1 hsince
      obtain ⟨l, rfl, hl⟩ := ha a (List.mem_singleton_self a)
      rw [← List.cons_append, ← List.append_assoc, hconcat, ih has]
      simp [awaitsAfter, hl]

namespace Session

/-! ## Reading a unit -/

/-- What a session has read before it evaluates anything. -/
inductive Reading where
  | failed (e : ReadError)
  /-- A line that says nothing. -/
  | idle
  | unit (u : InputUnit)
  /-- A block that is not accepted. -/
  | refused (e : Error)

/-- Read one unit. -/
def next (s : Session) (i : Input) : Reading × Session × Input :=
  match s.bridge.takeStale with
  | (true, b) => (.failed .interrupted, { s with bridge := b }, i)
  | (false, _) =>
    match s.readLine s.config.prompt i with
    | (.error e, s, i) => (.failed e, s, i)
    | (.ok line, s, i) =>
      if isIdle line then (.idle, s, i)
      else
        match classifyLine line with
        | some u => (.unit u, s, i)
        | none =>
          match s.readBlock (.start line) i.shown i.items with
          | (.error e, s, i) => (.failed e, s, i)
          | (.ok b, s, i) =>
            match classifyBlock s.config.filename b.text with
            | .ok u => (.unit u, s, i)
            | .error e => (.refused e, s, i)

/-- What is written when there is no line. -/
def cutText : ReadError → String
  | .interrupted => "Interrupted\n"
  | .endOfInput => "\n"
  | .io _ => ""

namespace Reading

/-- How the session ends when this was read, if it does. -/
def ends? : Reading → Option (Except ReadError Unit)
  | .failed e => Answer.ends? (.error e)
  | _ => none

/-- The session when what was read has been dealt with. -/
def after (fuel : Nat) (s : Session) : Reading → Option Session
  | .failed e => some (s.writeOut (cutText e))
  | .idle => some s
  | .unit u => s.perform fuel u
  | .refused e => some (s.printError e)

/-- What follows, in the session `t`. -/
def turn (r : Reading) (t : Session) (i : Input) : Turn :=
  match r.ends? with
  | some outcome => .over outcome t i
  | none => .again t i

end Reading

theorem writeOut_empty (s : Session) : s.writeOut "" = s := by
  simp [writeOut, Output.write]

/-- What becomes of an attempt to read a unit. -/
def turnOf : Except ReadError Unit × Session × Input → Turn
  | (.ok (), s, i) => .again s i
  | (.error .interrupted, s, i) => .again (s.writeOut (ReadError.interrupted.message ++ "\n")) i
  | (.error .endOfInput, s, i) => .over (.ok ()) (s.writeOut "\n") i
  | (.error e, s, i) => .over (.error e) s i

theorem turn_eq_map (fuel : Nat) (s : Session) (i : Input) :
    s.turn fuel i = (s.rep fuel i).map turnOf := by
  rw [turn]
  rcases s.rep fuel i with _ | ⟨(_ | _ | _) | _, s, i⟩ <;> rfl

/-- A turn is reading, and dealing with what was read. -/
theorem turn_eq (fuel : Nat) (s : Session) (i : Input) :
    s.turn fuel i = ((s.next i).1.after fuel (s.next i).2.1).map fun t =>
      (s.next i).1.turn t (s.next i).2.2 := by
  have hfailed : ∀ (e : ReadError) (s : Session) (i : Input), some (turnOf (.error e, s, i)) =
      ((Reading.failed e).after fuel s).map fun t => (Reading.failed e).turn t i := by
    intro e s i
    cases e with
    | io reason =>
      rw [Reading.after, cutText, writeOut_empty]
      rfl
    | _ => rfl
  rw [turn_eq_map, rep, next]
  rcases s.bridge.takeStale with ⟨_ | _, b⟩
  · dsimp only
    rcases s.readLine s.config.prompt i with ⟨e | line, s, i⟩
    · exact hfailed e s i
    · dsimp only
      by_cases hidle : isIdle line = true
      · rw [if_pos hidle, if_pos hidle]
        rfl
      · rw [if_neg hidle, if_neg hidle]
        cases classifyLine line with
        | some u =>
          rw [Option.map_map]
          rfl
        | none =>
          dsimp only
          rcases s.readBlock (.start line) i.shown i.items with ⟨e | b, s, i⟩
          · exact hfailed e s i
          · dsimp only
            rw [performBlock, Option.map_map]
            cases classifyBlock s.config.filename b.text <;> rfl
  · exact hfailed .interrupted _ i

theorem of_turn_again {fuel : Nat} {s s' : Session} {i i' : Input}
    (h : s.turn fuel i = some (.again s' i')) : (s.next i).1.ends? = none ∧
      (s.next i).1.after fuel (s.next i).2.1 = some s' ∧ (s.next i).2.2 = i' := by
  rw [turn_eq] at h
  obtain ⟨t, ht, hturn⟩ := Option.map_eq_some_iff.1 h
  rw [Reading.turn] at hturn
  cases hends : (s.next i).1.ends? with
  | none =>
    rw [hends] at hturn
    cases hturn
    exact ⟨rfl, ht, rfl⟩
  | some outcome =>
    rw [hends] at hturn
    cases hturn

/-! ## What was written does not matter -/

/-- The sessions differ in what was written, and in whether more can be, alone. -/
structure Alike (s t : Session) : Prop where
  config : s.config = t.config
  library : s.library = t.library
  globals : s.globals = t.globals
  world : s.world = t.world
  bridge : s.bridge = t.bridge
  schedule : s.schedule = t.schedule

/-- The same came of reading, but for what was written. -/
structure AlikeRead {α : Type} (x y : α × Session × Input) : Prop where
  result : x.1 = y.1
  session : x.2.1.Alike y.2.1
  input : x.2.2 = y.2.2

namespace Alike

variable {s t : Session}

theorem refl (s : Session) : s.Alike s := ⟨rfl, rfl, rfl, rfl, rfl, rfl⟩

theorem write (h : s.Alike t) (out err out' err' : Output) :
    ({ s with out := out, err := err } : Session).Alike { t with out := out', err := err' } :=
  ⟨h.config, h.library, h.globals, h.world, h.bridge, h.schedule⟩

theorem deliver (h : s.Alike t) (d : Delivery) : (s.deliver d).Alike (t.deliver d) := by
  unfold Session.deliver
  split
  · exact ⟨h.config, h.library, h.globals, h.world, congrArg Bridge.interrupt h.bridge,
      h.schedule⟩
  · exact h

theorem readLine (h : s.Alike t) (prompt : String) (i : Input) :
    AlikeRead (s.readLine prompt i) (t.readLine prompt i) := by
  unfold Session.readLine
  split
  · exact ⟨rfl, h, rfl⟩
  · exact ⟨rfl, h.deliver _, rfl⟩

theorem readBlock (h : s.Alike t) (b : PendingBlock) (shown : List String) (ds : List Delivery) :
    AlikeRead (s.readBlock b shown ds) (t.readBlock b shown ds) := by
  induction ds generalizing s t b shown with
  | nil => exact ⟨rfl, h, by simp only [Session.readBlock, h.config]⟩
  | cons d ds ih =>
    simp only [Session.readBlock, h.config]
    split
    · exact ⟨rfl, h.deliver d, rfl⟩
    · split
      · exact ⟨rfl, h.deliver d, rfl⟩
      · exact ih (h.deliver d) _ _

theorem next (h : s.Alike t) (i : Input) : AlikeRead (s.next i) (t.next i) := by
  rw [Session.next, Session.next, h.bridge, h.config]
  rcases t.bridge.takeStale with ⟨_ | _, b⟩
  · have hline := h.readLine t.config.prompt i
    dsimp only
    generalize s.readLine t.config.prompt i = x at hline ⊢
    generalize t.readLine t.config.prompt i = y at hline ⊢
    obtain ⟨r, s₁, i₁⟩ := x
    obtain ⟨r', t₁, i₁'⟩ := y
    obtain ⟨rfl, h₁, rfl⟩ := hline
    dsimp only at h₁ ⊢
    rcases r with e | line
    · exact ⟨rfl, h₁, rfl⟩
    · dsimp only
      split
      · exact ⟨rfl, h₁, rfl⟩
      · split
        · exact ⟨rfl, h₁, rfl⟩
        · have hblock := h₁.readBlock (.start line) i₁.shown i₁.items
          generalize s₁.readBlock (.start line) i₁.shown i₁.items = x at hblock ⊢
          generalize t₁.readBlock (.start line) i₁.shown i₁.items = y at hblock ⊢
          obtain ⟨r, s₂, i₂⟩ := x
          obtain ⟨r', t₂, i₂'⟩ := y
          obtain ⟨rfl, h₂, rfl⟩ := hblock
          dsimp only at h₂ ⊢
          rcases r with e | b
          · exact ⟨rfl, h₂, rfl⟩
          · dsimp only
            rw [h₂.config]
            cases classifyBlock t₂.config.filename b.text <;> exact ⟨rfl, h₂, rfl⟩
  · exact ⟨rfl, ⟨rfl, h.library, h.globals, h.world, rfl, h.schedule⟩, rfl⟩

theorem context_eq (h : s.Alike t) : s.context = t.context := by
  rw [Session.context, Session.context, receipt, receipt, h.library, h.bridge, h.schedule]

theorem afterEvaluation (h : s.Alike t) (g : Globals Value) (w : World) :
    (s.afterEvaluation g w).Alike (t.afterEvaluation g w) where
  config := h.config
  library := h.library
  globals := rfl
  world := rfl
  bridge := by
    simp only [Session.afterEvaluation, receipt, h.bridge, h.schedule]
  schedule := h.schedule

theorem evaluate (h : s.Alike t) (fuel : Nat) (u : InputUnit) :
    Option.Rel (fun x y => x.1 = y.1 ∧ x.2.Alike y.2) (s.evaluate fuel u) (t.evaluate fuel u) := by
  cases u with
  | expr e =>
    simp only [Session.evaluate, h.context_eq, h.config, h.globals, h.world]
    generalize ScriptShell.evaluate _ fuel _ _ e _ = r
    rcases r with ⟨v, w⟩ | ⟨e | _, w⟩
    · exact .some ⟨rfl, h.afterEvaluation _ _⟩
    · exact .some ⟨rfl, h.afterEvaluation _ _⟩
    · exact .none
  | stmts p =>
    simp only [Session.evaluate, h.context_eq, h.config, h.globals, h.world]
    generalize execute _ fuel _ _ p _ = x
    rcases x with ⟨(e | _) | _, g, w⟩
    · exact .some ⟨rfl, h.afterEvaluation _ _⟩
    · exact .none
    · exact .some ⟨rfl, h.afterEvaluation _ _⟩

theorem printValue (h : s.Alike t) (v : Value) : (s.printValue v).Alike (t.printValue v) := by
  unfold Session.printValue
  split
  · exact h
  · exact h.write _ _ _ _

theorem perform (h : s.Alike t) (fuel : Nat) (u : InputUnit) :
    Option.Rel Alike (s.perform fuel u) (t.perform fuel u) := by
  unfold Session.perform
  have heval := h.evaluate fuel u
  generalize s.evaluate fuel u = x at heval ⊢
  generalize t.evaluate fuel u = y at heval ⊢
  cases heval with
  | none => exact .none
  | @some x y hxy =>
    obtain ⟨r, s'⟩ := x
    obtain ⟨r', t'⟩ := y
    obtain ⟨rfl, hst⟩ := hxy
    rcases r with e | _ | v
    · exact .some (hst.write _ _ _ _)
    · exact .some hst
    · exact .some (hst.printValue v)

theorem after (h : s.Alike t) (fuel : Nat) (r : Reading) :
    Option.Rel Alike (r.after fuel s) (r.after fuel t) := by
  cases r with
  | failed e => exact .some (h.write _ _ _ _)
  | idle => exact .some h
  | unit u => exact h.perform fuel u
  | refused e => exact .some (h.write _ _ _ _)

/-- Sessions that differ in what was written run alike, whether or not more can be written. -/
theorem run (h : s.Alike t) (fuel : Nat) (i : Input) :
    Option.Rel AlikeRead (s.run fuel i) (t.run fuel i) := by
  -- both read the same unit, and are alike again when it has been dealt with
  induction fuel generalizing s t i with
  | zero => exact .none
  | succ fuel ih =>
    obtain ⟨hresult, hsession, hinput⟩ := h.next i
    have hafter := hsession.after fuel (t.next i).1
    simp only [Session.run, turn_eq, hresult, hinput]
    generalize (t.next i).1.after fuel (s.next i).2.1 = x at hafter ⊢
    generalize (t.next i).1.after fuel (t.next i).2.1 = y at hafter ⊢
    cases hafter with
    | none => exact .none
    | @some s₁ t₁ h₁ =>
      simp only [Option.map_some, Reading.turn]
      cases (t.next i).1.ends? with
      | none => exact ih h₁ _
      | some outcome => exact .some ⟨rfl, h₁, rfl⟩

end Alike

/-! ## Allowances -/

section Allowance

variable {s t : Session} {fuel fuel' : Nat} {i : Input}

theorem Reading.after_mono {r : Reading} (hle : fuel ≤ fuel') (h : r.after fuel s = some t) :
    r.after fuel' s = some t := by
  cases r with
  | unit u => exact perform_mono hle h
  | _ => exact h

theorem turn_mono {x : Turn} (hle : fuel ≤ fuel') (h : s.turn fuel i = some x) :
    s.turn fuel' i = some x := by
  rw [turn_eq] at h ⊢
  obtain ⟨t, ht, rfl⟩ := Option.map_eq_some_iff.1 h
  rw [Reading.after_mono hle ht]
  rfl

theorem run_mono {r : Except ReadError Unit × Session × Input} (hle : fuel ≤ fuel')
    (h : s.run fuel i = some r) : s.run fuel' i = some r := by
  induction fuel generalizing s i fuel' with
  | zero => cases h
  | succ fuel ih =>
    obtain ⟨fuel', rfl⟩ : ∃ k, fuel' = k + 1 := ⟨fuel' - 1, by omega⟩
    rw [run] at h ⊢
    cases ht : s.turn fuel i with
    | none =>
      rw [ht] at h
      cases h
    | some x =>
      rw [ht] at h
      rw [turn_mono (Nat.le_of_succ_le_succ hle) ht]
      rcases x with ⟨s₁, i₁⟩ | ⟨outcome, s₁, i₁⟩
      · exact ih (Nat.le_of_succ_le_succ hle) h
      · exact h

/-- One turn, and the run that follows it. -/
theorem run_of_turn {i' : Input} {r : Except ReadError Unit × Session × Input}
    (ht : s.turn fuel i = some (.again t i')) (hr : t.run fuel' i' = some r) :
    s.run (max fuel fuel' + 1) i = some r := by
  rw [run, turn_mono (Nat.le_max_left _ _) ht]
  exact run_mono (Nat.le_max_right _ _) hr

end Allowance

/-! ## Reading a script -/

/-- Reading has come from one place of a script to another, between two units. What made it stop
may end the session. -/
inductive Consumed (c : Config) (inBlock : Bool) (shown : List String) (script : List Answer) :
    Option (Except ReadError Unit) → List Answer → List String → Prop where
  | again {rest : List Answer} {shown' : List String} (hlt : rest.length < script.length)
      (h : consume c inBlock shown script = consume c false shown' rest) :
      Consumed c inBlock shown script none rest shown'
  | ends {outcome : Except ReadError Unit} {rest : List Answer} {shown' : List String}
      (h : consume c inBlock shown script = (outcome, ⟨rest.map Answer.quiet, shown'⟩)) :
      Consumed c inBlock shown script (some outcome) rest shown'

section
variable {c : Config} {inBlock : Bool} {shown shown' : List String} {script rest : List Answer}
  {a : Answer} {o : Option (Except ReadError Unit)}

theorem Consumed.single (h : awaitsAfter inBlock a = false) :
    Consumed c inBlock shown (a :: rest) a.ends? rest (c.promptIn inBlock :: shown) := by
  cases ha : a.ends? with
  | none => exact .again (Nat.lt_succ_self _) (by rw [consume_cons_of_none ha, h])
  | some outcome => exact .ends (consume_cons_of_some ha)

theorem Consumed.cons (ha : a.ends? = none)
    (h : Consumed c (awaitsAfter inBlock a) (c.promptIn inBlock :: shown) script o rest shown') :
    Consumed c inBlock shown (a :: script) o rest shown' := by
  cases h with
  | again hlt h => exact .again (Nat.lt_succ_of_lt hlt) (by rw [consume_cons_of_none ha, h])
  | ends h => exact .ends (by rw [consume_cons_of_none ha, h])

end

section
variable {s : Session}

theorem readBlock_quiet (b : PendingBlock) (shown : List String) (script : List Answer) :
    ∃ r rest shown', s.readBlock b shown (script.map Answer.quiet) =
      (r, s, ⟨rest.map Answer.quiet, shown'⟩) ∧
        Consumed s.config true shown script (Answer.ends? (r.map PendingBlock.text)) rest
          shown' := by
  induction script generalizing b shown with
  | nil => exact ⟨_, [], _, rfl, .ends rfl⟩
  | cons a script ih =>
    cases a with
    | error e => exact ⟨.error e, script, _, rfl, .single rfl⟩
    | ok line =>
      simp only [List.map_cons, readBlock, Answer.quiet]
      by_cases hblank : Text.isBlankLine line = true
      · rw [if_pos hblank]
        exact ⟨.ok b, script, _, rfl, .single (a := .ok line) (by simp [awaitsAfter, hblank])⟩
      · rw [if_neg hblank]
        obtain ⟨r, rest, shown', hread, hconsumed⟩ :=
          ih (b.push line) (s.config.continuation :: shown)
        have hin : awaitsAfter true (.ok line) = true := by simp [awaitsAfter, hblank]
        exact ⟨r, rest, shown', hread, .cons rfl (by rw [hin]; exact hconsumed)⟩

/-- Without interrupts, a unit is read as the script says, and the session stays what it is. -/
theorem next_quiet (hquiet : s.bridge.pending = false) (shown : List String)
    (script : List Answer) : ∃ r rest shown', s.next ⟨script.map Answer.quiet, shown⟩ =
      (r, s, ⟨rest.map Answer.quiet, shown'⟩) ∧
        Consumed s.config false shown script r.ends? rest shown' := by
  obtain ⟨b, hb⟩ := Bridge.takeStale_quiet hquiet
  rw [next, hb]
  cases script with
  | nil => exact ⟨.failed .endOfInput, [], _, rfl, .ends rfl⟩
  | cons a script =>
    cases a with
    | error e => exact ⟨.failed e, script, _, rfl, .single rfl⟩
    | ok line =>
      have hline : s.readLine s.config.prompt ⟨(Except.ok line :: script).map Answer.quiet, shown⟩ =
          (.ok line, s, ⟨script.map Answer.quiet, s.config.prompt :: shown⟩) := rfl
      rw [hline]
      dsimp only
      by_cases hidle : isIdle line = true
      · rw [if_pos hidle]
        exact ⟨.idle, script, _, rfl, .single (a := .ok line) (by simp [awaitsAfter, hidle])⟩
      · rw [if_neg hidle]
        cases hu : classifyLine line with
        | some u =>
          exact ⟨.unit u, script, _, rfl, .single (a := .ok line) (by simp [awaitsAfter, hu])⟩
        | none =>
          have hin : awaitsAfter false (.ok line) = true := by simp [awaitsAfter, hidle, hu]
          obtain ⟨r, rest, shown', hread, hconsumed⟩ :=
            readBlock_quiet (s := s) (.start line) (s.config.prompt :: shown) script
          have hstep : Consumed s.config false shown (.ok line :: script)
              (Answer.ends? (r.map PendingBlock.text)) rest shown' :=
            .cons rfl (by rw [hin]; exact hconsumed)
          dsimp only
          rw [hread]
          rcases r with e | b
          · exact ⟨.failed e, rest, shown', rfl, hstep⟩
          · dsimp only
            cases classifyBlock s.config.filename b.text with
            | ok u => exact ⟨.unit u, rest, shown', rfl, hstep⟩
            | error e => exact ⟨.refused e, rest, shown', rfl, hstep⟩

/-! ## Running a script -/

/-- A run on the input `i` comes to read a unit from the input `j` in the session `t`. -/
inductive Comes : Session → Input → Session → Input → Prop where
  | start {s : Session} {i : Input} : Comes s i s i
  | later {fuel : Nat} {s s' t : Session} {i i' j : Input}
      (hturn : s.turn fuel i = some (.again s' i')) (h : Comes s' i' t j) : Comes s i t j

variable {fuel : Nat}

theorem perform_keeps {u : InputUnit} {r : Except Error (Option Value) × Session}
    (h : s.evaluate fuel u = some r) (hquiet : s.bridge.pending = false) :
    ∃ t, s.perform fuel u = some t ∧ t.config = s.config ∧ t.bridge.pending = false := by
  have hr : r.2.config = s.config ∧ r.2.bridge.pending = false := by
    simp only [evaluate] at h
    cases u <;> dsimp only at h <;> split at h <;> cases h <;>
      exact ⟨rfl, bridgeAfter_quiet hquiet _⟩
  rw [perform, h]
  rcases r with ⟨e | _ | v, t⟩
  · exact ⟨_, rfl, hr⟩
  · exact ⟨_, rfl, hr⟩
  · refine ⟨_, rfl, ?_⟩
    rw [printValue]
    split <;> exact hr

theorem after_keeps {r : Reading} {t : Session} (h : r.after fuel s = some t)
    (hquiet : s.bridge.pending = false) : t.config = s.config ∧ t.bridge.pending = false := by
  cases r with
  | unit u =>
    cases hx : s.evaluate fuel u with
    | none =>
      rw [Reading.after, perform, hx] at h
      cases h
    | some x =>
      obtain ⟨t', ht', hkeeps⟩ := perform_keeps hx hquiet
      cases h.symm.trans ht'
      exact hkeeps
  | _ =>
    cases h
    exact ⟨rfl, hquiet⟩

/-- If all evaluations that the run comes to end, the run ends, and has read the script as
`consume` says. -/
theorem run_consume (script : List Answer) (shown : List String)
    (hquiet : s.bridge.pending = false)
    (hends : ∀ t i u, s.Comes ⟨script.map Answer.quiet, shown⟩ t i → (t.next i).1 = .unit u →
      ∃ fuel r, t.evaluate fuel u = some r) :
    ∃ fuel t, s.run fuel ⟨script.map Answer.quiet, shown⟩ =
      some ((consume s.config false shown script).1, t,
        (consume s.config false shown script).2) := by
  -- each turn leaves less of the script
  induction hlength : script.length using Nat.strongRecOn generalizing script shown s with
  | ind n ih =>
    subst hlength
    obtain ⟨r, rest, shown', hnext, hconsumed⟩ := next_quiet hquiet shown script
    obtain ⟨fuel, t, hafter⟩ : ∃ fuel t, r.after fuel s = some t := by
      cases r with
      | unit u =>
        obtain ⟨fuel, x, hx⟩ := hends s _ u .start (by rw [hnext])
        obtain ⟨t, ht, -⟩ := perform_keeps hx hquiet
        exact ⟨fuel, t, ht⟩
      | _ => exact ⟨0, _, rfl⟩
    have hturn : s.turn fuel ⟨script.map Answer.quiet, shown⟩ =
        some (r.turn t ⟨rest.map Answer.quiet, shown'⟩) := by
      rw [turn_eq, hnext]
      dsimp only
      rw [hafter, Option.map_some]
    obtain ⟨hconfig, hquiet'⟩ := after_keeps hafter hquiet
    rw [Reading.turn] at hturn
    generalize r.ends? = o at hconsumed hturn
    cases hconsumed with
    | again hlt h =>
      obtain ⟨fuel', t', hrun⟩ := ih rest.length hlt rest shown' hquiet'
        (fun t' i u hcomes => hends t' i u (.later hturn hcomes)) rfl
      rw [hconfig, ← h] at hrun
      exact ⟨_, t', run_of_turn hturn hrun⟩
    | ends h =>
      refine ⟨fuel + 1, t, ?_⟩
      rw [run, hturn, h]

theorem Comes.quiet {t : Session} {i j : Input} (h : s.Comes i t j)
    (hi : ∃ script : List Answer, i.items = script.map Answer.quiet)
    (hquiet : s.bridge.pending = false) : t.bridge.pending = false := by
  induction h with
  | start => exact hquiet
  | @later fuel s s' t i i' j hturn h ih =>
    obtain ⟨script, hi⟩ := hi
    obtain ⟨r, rest, shown', hnext, -⟩ := next_quiet hquiet i.shown script
    obtain ⟨-, hafter, rfl⟩ := of_turn_again hturn
    rw [← hi] at hnext
    rw [hnext] at hafter ih
    exact ih ⟨rest, rfl⟩ (after_keeps hafter hquiet).2

/-! ## Blocks that are cut short -/

/-- The script begins with a block that is cut short by `e`, before its blank line; behind that
there is `rest`. -/
inductive CutShort : List Answer → ReadError → List Answer → Prop where
  | intro {line : String} {lines : List String} {tail : List Answer} {e : ReadError}
      (hidle : isIdle line = false) (hline : classifyLine line = none)
      (hlines : ∀ l ∈ lines, Text.isBlankLine l = false) (he : answerTo tail 0 = .error e) :
      CutShort (.ok line :: (lines.map Except.ok ++ tail)) e (tail.drop 1)

theorem readBlock_cut {lines : List String} {tail : List Answer} {e : ReadError}
    (b : PendingBlock) (shown : List String) (hlines : ∀ l ∈ lines, Text.isBlankLine l = false)
    (he : answerTo tail 0 = .error e) :
    ∃ shown', s.readBlock b shown ((lines.map Except.ok ++ tail).map Answer.quiet) =
      (.error e, s, ⟨(tail.drop 1).map Answer.quiet, shown'⟩) := by
  induction lines generalizing b shown with
  | nil =>
    cases tail with
    | nil =>
      cases he
      exact ⟨_, rfl⟩
    | cons a tail =>
      obtain rfl : a = .error e := he
      exact ⟨_, rfl⟩
  | cons line lines ih =>
    obtain ⟨hline, hlines⟩ := List.forall_mem_cons.1 hlines
    simp only [List.map_cons, List.cons_append, readBlock, Answer.quiet, hline,
      Bool.false_eq_true, if_false]
    exact ih (b.push line) (s.config.continuation :: shown) hlines

theorem next_cut {script rest : List Answer} {e : ReadError} (shown : List String)
    (hquiet : s.bridge.pending = false) (h : CutShort script e rest) :
    ∃ shown', s.next ⟨script.map Answer.quiet, shown⟩ =
      (.failed e, s, ⟨rest.map Answer.quiet, shown'⟩) := by
  obtain ⟨b, hb⟩ := Bridge.takeStale_quiet hquiet
  cases h with
  | @intro line lines tail _ hidle hline hlines he =>
    obtain ⟨shown', hread⟩ :=
      readBlock_cut (s := s) (.start line) (s.config.prompt :: shown) hlines he
    have hfirst : s.readLine s.config.prompt
        ⟨(Except.ok line :: (lines.map Except.ok ++ tail)).map Answer.quiet, shown⟩ = (.ok line, s,
          ⟨(lines.map Except.ok ++ tail).map Answer.quiet, s.config.prompt :: shown⟩) := rfl
    refine ⟨shown', ?_⟩
    simp only [next, hb, hfirst, hidle, hline, Bool.false_eq_true, if_false, hread]

/-- A block that is cut short leaves the session as it is, but for a line that says so. -/
theorem turn_cut {script rest : List Answer} {e : ReadError} (fuel : Nat) (shown : List String)
    (hquiet : s.bridge.pending = false) (h : CutShort script e rest) :
    ∃ shown', s.turn fuel ⟨script.map Answer.quiet, shown⟩ =
      some ((Reading.failed e).turn (s.writeOut (cutText e)) ⟨rest.map Answer.quiet, shown'⟩) := by
  obtain ⟨shown', hnext⟩ := next_cut shown hquiet h
  refine ⟨shown', ?_⟩
  rw [turn_eq, hnext]
  rfl

/-! ## The main theorem -/

/-- With every great enough allowance, the session reads the script up to the `n`-th answer, returns
`outcome` and is `t` then. -/
def ReadsTo (s : Session) (script : List Answer) (n : Nat) (outcome : Except ReadError Unit)
    (t : Session) : Prop :=
  ∃ N, ∀ fuel ≥ N, s.run fuel (.ofItems (script.map Answer.quiet)) =
    some (outcome, t, ⟨(script.drop (n + 1)).map Answer.quiet,
      (s.config.promptsFor script n).reverse⟩)

theorem Alike.readsTo {s' t : Session} {script : List Answer} {n : Nat}
    {outcome : Except ReadError Unit} (h : s.Alike s') (hs : s.ReadsTo script n outcome t) :
    ∃ t', s'.ReadsTo script n outcome t' ∧ t.Alike t' := by
  obtain ⟨N, hN⟩ := hs
  have hrun := h.run N (.ofItems (script.map Answer.quiet))
  rw [hN N (Nat.le_refl N), h.config] at hrun
  generalize hx : s'.run N (.ofItems (script.map Answer.quiet)) = x at hrun
  cases hrun with
  | @some _ x hx' =>
    obtain ⟨r, t', i⟩ := x
    obtain ⟨rfl, ht, rfl⟩ := hx'
    exact ⟨t', ⟨N, fun fuel hle => run_mono hle hx⟩, ht⟩

/-- A session reads a script up to the first answer that ends it, and nothing behind that, whatever
its evaluations come to, if they end and there are no interrupts. The prompts are those of the
script, a block that is cut short changes nothing but what is printed for it, and nothing but what
is printed depends on what the outputs take. -/
theorem run_script {script : List Answer} (hquiet : s.bridge.pending = false)
    (hends : ∀ t i u, s.Comes (.ofItems (script.map Answer.quiet)) t i →
      (t.next i).1 = .unit u → ∃ fuel r, t.evaluate fuel u = some r) :
    ∃ n outcome t, EndsAt script n outcome ∧ s.ReadsTo script n outcome t ∧
      (∀ out err, ∃ t', ({ s with out := out, err := err } : Session).ReadsTo script n outcome t' ∧
        t.Alike t') ∧
      (∀ answers, awaits answers = true ↔ ∃ before line since,
        answers = before ++ .ok line :: since ∧ awaits before = false ∧ isIdle line = false ∧
          classifyLine line = none ∧ ∀ a ∈ since, ∃ l, a = .ok l ∧ Text.isBlankLine l = false) ∧
      ∀ t shown front e rest fuel,
        s.Comes (.ofItems (script.map Answer.quiet)) t ⟨front.map Answer.quiet, shown⟩ →
          CutShort front e rest → ∃ shown', t.turn fuel ⟨front.map Answer.quiet, shown⟩ =
            some ((Reading.failed e).turn (t.writeOut (cutText e))
              ⟨rest.map Answer.quiet, shown'⟩) := by
  obtain ⟨N, t, hrun⟩ := run_consume script [] hquiet hends
  obtain ⟨n, outcome, hn, hconsume⟩ := consume_eq s.config false [] script
  rw [hconsume, List.append_nil] at hrun
  have hreads : s.ReadsTo script n outcome t := ⟨N, fun fuel hle => run_mono hle hrun⟩
  refine ⟨n, outcome, t, hn, hreads, fun out err => ?_, awaits_eq_true_iff,
    fun t shown front e rest fuel hcomes hcut => ?_⟩
  · exact ((Alike.refl s).write s.out s.err out err).readsTo hreads
  · exact turn_cut fuel shown (hcomes.quiet ⟨script, rfl⟩ hquiet) hcut

end

/-- A block that an interrupt cuts short, and an expression. -/
def cutScript : List Answer := [.ok "if x:", .error .interrupted, .ok "True"]

theorem cutScript_lines : classifyLine "if x:" = none ∧
    classifyLine "True" = some (.expr (.bool true)) :=
  ⟨by cbv, by cbv⟩

theorem cutScript_cutShort : CutShort cutScript .interrupted [.ok "True"] := by
  have hcut : CutShort (.ok "if x:" :: (List.map Except.ok [] ++ [.error .interrupted,
      .ok "True"])) .interrupted _ := .intro rfl cutScript_lines.1 nofun rfl
  exact hcut

theorem evaluate_of_comes_cutScript {t : Session} {i : Input} {u : InputUnit}
    (hcomes : blank.Comes (.ofItems (cutScript.map Answer.quiet)) t i)
    (hu : (t.next i).1 = .unit u) : ∃ fuel r, t.evaluate fuel u = some r := by
  obtain ⟨shown, hfirst⟩ := next_cut (s := blank) [] rfl cutScript_cutShort
  cases hcomes with
  | start => cases hu.symm.trans (congrArg Prod.fst hfirst)
  | @later _ _ s _ _ i₁ _ hturn hcomes =>
    obtain ⟨-, hs, hi⟩ := of_turn_again hturn
    rw [Input.ofItems, hfirst] at hs hi
    cases hs
    have hidle : isIdle "True" = false := by decide
    obtain ⟨b, hb⟩ := Bridge.takeStale_quiet
      (b := (blank.writeOut (cutText .interrupted)).bridge) rfl
    have hsecond : (blank.writeOut (cutText .interrupted)).next i₁ = (.unit (.expr (.bool true)),
        blank.writeOut (cutText .interrupted), ⟨[], ">>> " :: shown⟩) := by
      simp only [← hi, next, hb, readLine, Answer.quiet, List.map_cons, hidle,
        cutScript_lines.2, Bool.false_eq_true, if_false]
      rfl
    cases hcomes with
    | start =>
      cases hu.symm.trans (congrArg Prod.fst hsecond)
      exact ⟨2, _, rfl⟩
    | @later _ _ s _ _ i₂ _ hturn hcomes =>
      obtain ⟨-, hs, hi⟩ := of_turn_again hturn
      rw [hsecond] at hs hi
      obtain ⟨b, hb⟩ := Bridge.takeStale_quiet (after_keeps hs rfl).2
      have hthird : (s.next i₂).1 = .failed .endOfInput := by
        rw [← hi, next, hb]
        rfl
      cases hcomes with
      | start => cases hu.symm.trans hthird
      | later hturn =>
        have hends := (of_turn_again hturn).1
        rw [hthird] at hends
        cases hends

theorem run_script_cut : blank.bridge.pending = false ∧
    (∀ t i u, blank.Comes (.ofItems (cutScript.map Answer.quiet)) t i → (t.next i).1 = .unit u →
      ∃ fuel r, t.evaluate fuel u = some r) ∧
    ∃ n outcome t, EndsAt cutScript n outcome ∧ blank.ReadsTo cutScript n outcome t ∧
      (∃ t', ({ blank with out := .empty true, err := .empty true } : Session).ReadsTo cutScript n
        outcome t' ∧ t.Alike t') ∧
      blank.config.promptsFor cutScript n = [">>> ", "... ", ">>> ", ">>> "] ∧
      ∃ shown, blank.turn 0 (.ofItems (cutScript.map Answer.quiet)) =
        some (.again (blank.writeOut "Interrupted\n") ⟨[Answer.quiet (.ok "True")], shown⟩) := by
  have hends := fun t i u => evaluate_of_comes_cutScript (t := t) (i := i) (u := u)
  obtain ⟨n, outcome, t, hn, hreads, hclosed, hawaits, hturn⟩ := run_script (s := blank) rfl hends
  have hthree : n = 3 := by
    obtain ⟨hle, -, hlast⟩ := hn
    rcases n with _ | _ | _ | n
    · cases hlast
    · cases hlast
    · cases hlast
    · exact congrArg (· + 3) (Nat.le_zero.1 (Nat.le_of_add_le_add_right (b := 3) hle))
  have hprompts : blank.config.promptsFor cutScript n = [">>> ", "... ", ">>> ", ">>> "] := by
    have hin : awaits [.ok "if x:"] = true :=
      (hawaits _).2 ⟨[], "if x:", [], rfl, rfl, rfl, cutScript_lines.1, nofun⟩
    have hout : awaits cutScript = false := by
      simp [awaits, cutScript, awaitsAfter, cutScript_lines.2]
    rw [hthree]
    change [_, blank.config.promptIn (awaits [.ok "if x:"]), _,
      blank.config.promptIn (awaits cutScript)] = _
    rw [hin, hout]
    rfl
  obtain ⟨shown, hturn⟩ := hturn blank [] cutScript .interrupted _ 0 .start cutScript_cutShort
  exact ⟨rfl, hends, n, outcome, t, hn, hreads, hclosed _ _, hprompts, shown, hturn⟩

end Session

end ScriptShell
