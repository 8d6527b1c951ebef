import ScriptShell.Proofs.Eval.Lockstep
import ScriptShell.Proofs.Program.Height
import ScriptShell.Proofs.Program.Line
import ScriptShell.Proofs.Session.Stale

/-!
# ScriptShell.Proofs.Session.Typed

Typing a program into a session, line by line, does what executing it does.

* `cutLines`, `Session.typed`: the lines of a text, and the answers that they are.
* `Session.Follows`: a session that keeps step with the execution.
* `Session.perform_follows`: a unit does what its statements do.
* `Session.run_follows`: the lines of a program do what the program does, by induction on them.
* `Session.run_typed`: the main theorem.
-/

namespace ScriptShell

open Scanner (Dangling)

/-! ## The lines of a text -/

/-- The lines of a text: what line ends end, and what comes behind the last one, unless it is
nothing. -/
def cutLines : List Char → List (List Char)
  | [] => []
  | c :: cs =>
    if c = '\n' then [] :: cutLines cs
    else
      match cutLines cs with
      | [] => [[c]]
      | line :: lines => (c :: line) :: lines

/-- The text begins with the line, and the rest of it is in further lines. -/
inductive Begins (line : List Char) : List Char → List Char → Prop where
  | last (h : line ≠ []) : Begins line [] line
  | more (rest : List Char) : Begins line rest (line ++ '\n' :: rest)

section
variable {line rest cs : List Char}

theorem cutLines_line (h : '\n' ∉ line) (hne : line ≠ []) : cutLines line = [line] := by
  induction line with
  | nil => exact absurd rfl hne
  | cons c cs ih =>
    have hc : c ≠ '\n' := fun hc => h (by simp [hc])
    rw [cutLines, if_neg hc]
    cases cs with
    | nil => rfl
    | cons d ds => rw [ih (fun hd => h (List.mem_cons_of_mem _ hd)) nofun]

theorem cutLines_append (h : '\n' ∉ line) :
    cutLines (line ++ '\n' :: rest) = line :: cutLines rest := by
  induction line with
  | nil => rw [List.nil_append, cutLines, if_pos rfl]
  | cons c cs ih =>
    have hc : c ≠ '\n' := fun hc => h (by simp [hc])
    rw [List.cons_append, cutLines, if_neg hc, ih fun hd => h (List.mem_cons_of_mem _ hd)]

theorem Begins.cutLines (h : Begins line rest cs) (hline : '\n' ∉ line) :
    ScriptShell.cutLines cs = line :: ScriptShell.cutLines rest := by
  cases h with
  | last hne => exact cutLines_line hline hne
  | more rest => exact cutLines_append hline

theorem Begins.length_lt (h : Begins line rest cs) : rest.length < cs.length := by
  cases h with
  | last hne => exact List.length_pos_iff.2 hne
  | more rest => simp only [List.length_append, List.length_cons]; omega

theorem eq_nil_or_begins (cs : List Char) :
    cs = [] ∨ ∃ line rest, '\n' ∉ line ∧ Begins line rest cs := by
  by_cases hcs : '\n' ∈ cs
  · obtain ⟨line, rest, rfl, hline⟩ := List.eq_append_cons_of_mem hcs
    exact .inr ⟨line, rest, hline, .more rest⟩
  · by_cases hne : cs = []
    · exact .inl hne
    · exact .inr ⟨cs, [], hcs, .last hne⟩

theorem lines_induction {P : List Char → Prop} (nil : P [])
    (begins : ∀ line rest cs, '\n' ∉ line → Begins line rest cs → P rest → P cs)
    (cs : List Char) : P cs := by
  induction hlength : cs.length using Nat.strongRecOn generalizing cs with
  | ind n ih =>
    rcases eq_nil_or_begins cs with rfl | ⟨line, rest, hline, hbegins⟩
    · exact nil
    · exact begins line rest cs hline hbegins (ih _ (hlength ▸ hbegins.length_lt) rest rfl)

/-- The text with a line end behind its last line. -/
def ended (cs : List Char) : List Char := (cutLines cs).flatMap (· ++ ['\n'])

theorem ended_begins (h : Begins line rest cs) (hline : '\n' ∉ line) :
    ended cs = line ++ '\n' :: ended rest := by
  rw [ended, h.cutLines hline, List.flatMap_cons, ended, List.append_assoc]
  rfl

theorem ended_eq (cs : List Char) : ended cs = cs ∨ ended cs = cs ++ ['\n'] ∧
    ∃ ds line, cs = ds ++ line ∧ '\n' ∉ line ∧ line ∈ cutLines cs := by
  induction cs using lines_induction with
  | nil => exact .inl rfl
  | begins line rest cs hline hbegins ih =>
    rw [ended_begins hbegins hline, hbegins.cutLines hline]
    cases hbegins with
    | last hne => exact .inr ⟨rfl, [], line, rfl, hline, List.mem_cons_self⟩
    | more rest =>
      rcases ih with hrest | ⟨hrest, ds, last, rfl, hlast, hmem⟩
      · exact .inl (by rw [hrest])
      · refine .inr ⟨?_, line ++ '\n' :: ds, last, ?_, hlast, List.mem_cons_of_mem _ hmem⟩
        · rw [hrest, List.append_assoc line, List.cons_append]
        · rw [List.append_assoc, List.cons_append]

/-- A block of the lines of a text is the text with a line end behind its last line. -/
theorem text_eq_ended {b : PendingBlock}
    (h : b.lines.toList = (cutLines cs).map String.ofList) : b.text = String.ofList (ended cs) := by
  apply String.toList_injective
  rw [PendingBlock.text, h, String.toList_join, String.toList_ofList, ended, List.map_map,
    List.flatMap_map]
  congr 1
  funext line
  simp

end

/-! ## What the lines of a program say -/

/-- The unit is the statements, but for the lines of places. -/
inductive InputUnit.Says (p : Program) : InputUnit → Prop where
  | stmts {p' : Program} (h : SameBlock Pos.eraseLine p p') : Says p (.stmts p')
  | expr {e : Expr} {q : Pos} (h : SameBlock Pos.eraseLine p [.expr e q]) : Says p (.expr e)

theorem SameBlock.trans {π : Pos → Pos} {p p' p'' : Program} (h : SameBlock π p p')
    (h' : SameBlock π p' p'') : SameBlock π p p'' := by
  induction h generalizing p'' with
  | nil => exact h'
  | cons hs _ ih =>
    cases h' with
    | cons hs' h' => exact .cons (Eq.trans hs hs') (ih h')

theorem InputUnit.Says.of_same {p p' : Program} {u : InputUnit} (h : u.Says p')
    (hsame : SameBlock Pos.eraseLine p p') : u.Says p := by
  cases h with
  | stmts h => exact .stmts (hsame.trans h)
  | expr h => exact .expr (hsame.trans h)

theorem isDirect_of_same {π : Pos → Pos} {s s' : Stmt} (h : Stmt.Same π s s')
    (hs : s'.isDirect = true) : s.isDirect = true := by
  cases s' <;> cases hs <;> cases s <;> first | rfl | cases h

section
variable {line rest cs : List Char} {p : Program}

theorem parse_nil : Program.parse (String.ofList []) = .ok [] := by cbv

theorem not_dangling_nil : ¬Dangling [] := by
  rintro ⟨s, hs, hphase, -⟩
  cases hs
  cases hphase

theorem Begins.parse_of_idle (h : Begins line rest cs) (hline : '\n' ∉ line)
    (hink : line.find? (fun c => !Text.isBlank c) = some '#')
    (hp : Program.parse (String.ofList cs) = .ok p) :
    (Dangling rest → Dangling cs) ∧
      ∃ p', Program.parse (String.ofList rest) = .ok p' ∧ SameBlock Pos.eraseLine p p' := by
  cases h with
  | last _ =>
    refine ⟨fun h => absurd h not_dangling_nil, [], parse_nil, ?_⟩
    rw [parse_idle hline hink hp]
    exact .nil
  | more rest => exact parse_behind_idle hline hink hp

theorem isDirect_of_kind {s : Stmt} (h : s.kind ≠ .other) : s.isDirect = true := by
  cases s <;> first | rfl | exact absurd rfl h

theorem eq_singleton_of_isSingleBinding (h : isSingleBinding p = true) :
    ∃ s, p = [s] ∧ s.kind ≠ .other := by
  unfold isSingleBinding at h
  rcases p with _ | ⟨s, _ | ⟨s', p⟩⟩
  · cases h
  · refine ⟨s, rfl, fun hs => ?_⟩
    rw [List.map_singleton, hs] at h
    cases h
  · simp at h

/-- A line that is complete by itself is the first statement, and the other lines are the rest. -/
theorem Begins.parse_of_complete {u : InputUnit} (h : Begins line rest cs) (hline : '\n' ∉ line)
    (hu : classifyLine (String.ofList line) = some u)
    (hp : Program.parse (String.ofList cs) = .ok p) :
    (Dangling rest → Dangling cs) ∧ ∃ s p₁ p₂, p = s :: p₁ ∧ s.isDirect = true ∧ u.Says [s] ∧
      Program.parse (String.ofList rest) = .ok p₂ ∧ SameBlock Pos.eraseLine p₁ p₂ := by
  unfold classifyLine at hu
  split at hu
  · rename_i e he
    cases hu
    cases h with
    | last _ =>
      obtain ⟨q, rfl⟩ := parse_of_expr he hp
      exact ⟨fun h => absurd h not_dangling_nil, _, [], [], rfl, rfl,
        .expr (.cons (.refl _) .nil), parse_nil, .nil⟩
    | more rest =>
      obtain ⟨t, t', q, hcomplete⟩ := complete_of_expr hline he hp
      obtain ⟨hdangling, p₁, p₂, rfl, hp₂, hsame⟩ := hcomplete.parse_behind hline hp
      exact ⟨hdangling, _, p₁, p₂, rfl, rfl, .expr (.cons (.refl _) .nil), hp₂, hsame⟩
  · split at hu
    · rename_i p' hp'
      split at hu
      · rename_i hsingle
        cases hu
        obtain ⟨s, rfl, hs⟩ := eq_singleton_of_isSingleBinding hsingle
        cases h with
        | last _ =>
          rw [hp'] at hp
          cases hp
          exact ⟨fun h => absurd h not_dangling_nil, s, [], [], rfl, isDirect_of_kind hs,
            .stmts (.cons (.refl _) .nil), parse_nil, .nil⟩
        | more rest =>
          obtain ⟨t, t', hcomplete⟩ := complete_of_binding hline hp' hs
          obtain ⟨hdangling, p₁, p₂, rfl, hp₂, hsame⟩ := hcomplete.parse_behind hline hp
          exact ⟨hdangling, s, p₁, p₂, rfl, isDirect_of_kind hs, .stmts (.cons (.refl _) .nil), hp₂,
            hsame⟩
      · cases hu
    · cases hu

theorem classifyBlock_ended (file : String) (hp : Program.parse (String.ofList cs) = .ok p)
    (hblank : ∀ line ∈ cutLines cs, line.all Text.isBlank = false) (hdangling : ¬Dangling cs) :
    ∃ u, classifyBlock file (String.ofList (ended cs)) = .ok u ∧ u.Says p := by
  -- the session ends the last line too, which is where the text must not dangle
  obtain ⟨p', hp', hsame⟩ : ∃ p', Program.parse (String.ofList (ended cs)) = .ok p' ∧
      SameBlock Pos.eraseLine p p' := by
    rcases ended_eq cs with heq | ⟨heq, ds, line, rfl, hline, hmem⟩
    · exact ⟨p, by rw [heq, hp], List.forall₂_same.2 fun s _ => .refl s⟩
    · rw [heq]
      exact parse_lineEnd hline (hblank line hmem) hdangling hp
  unfold classifyBlock
  split
  · rename_i e he
    obtain ⟨q, rfl⟩ := parse_of_expr he hp'
    exact ⟨_, rfl, .expr hsame⟩
  · rw [parseProgram, hp']
    exact ⟨_, rfl, .stmts hsame⟩

end

/-! ## No interrupts -/

namespace Bridge

variable {b : Bridge}

theorem attempt_quiet {ev : Event} (hev : ∀ accepted, ev ≠ .interrupt accepted)
    (hb : b.pending = false) : (b.attempt ev).pending = false := by
  rw [attempt]
  cases hnext : b.next ev with
  | none => exact hb
  | some b' =>
    rw [Option.getD_some]
    cases ev with
    | interrupt accepted => exact absurd rfl (hev accepted)
    | takeStale found =>
      simp only [next] at hnext
      split at hnext <;> cases hnext
      rw [hb]
      rfl
    | begin =>
      simp only [next] at hnext
      split at hnext <;> cases hnext
      exact hb
    | «at» n a =>
      simp only [next] at hnext
      split at hnext
      · cases hnext
      · split at hnext
        · obtain ⟨e, -, rfl⟩ := Option.map_eq_some_iff.1 hnext
          rw [hb]
          rfl
        · cases hnext
    | dropSource =>
      cases hnext
      exact hb
    | dropSender =>
      cases hnext
      exact hb

theorem takeStale_quiet (hb : b.pending = false) : ∃ b', b.takeStale = (false, b') := by
  rw [takeStale, isStale, hb, Bool.and_false]
  exact ⟨_, rfl⟩

theorem actLatest_quiet (a : Act) (hb : b.pending = false) : (b.actLatest a).pending = false :=
  attempt_quiet nofun hb

theorem complete_quiet (hb : b.pending = false) : b.complete.pending = false :=
  actLatest_quiet _ (actLatest_quiet _ hb)

theorem receive_quiet (hb : b.pending = false) : b.receive.pending = false :=
  actLatest_quiet _ (actLatest_quiet _ (actLatest_quiet _ (actLatest_quiet _ hb)))

theorem finish_quiet (hb : b.pending = false) : b.finish.2.pending = false := by
  rw [finish]
  split
  · exact hb
  · split
    · exact hb
    · exact actLatest_quiet _ (complete_quiet hb)

end Bridge

namespace Session

theorem bridgeAfter_quiet {b : Bridge} (hb : b.pending = false) (receipt : Receipt) :
    (bridgeAfter b receipt).pending = false := by
  have hlisten : b.begin.listen.pending = false :=
    Bridge.actLatest_quiet _ (Bridge.attempt_quiet nofun (Bridge.complete_quiet hb))
  cases receipt with
  | after polls => exact Bridge.finish_quiet (Bridge.receive_quiet hlisten)
  | never => exact Bridge.finish_quiet hlisten

/-! ## Units -/

/-- The session, which began as `s₀` and has printed no failure, has come as far as an execution
that has left `g` and `w`. -/
structure Follows (s₀ : Session) (g : Globals Value) (w : World) (s : Session) : Prop where
  config : s.config = s₀.config
  library : s.library = s₀.library
  err : s.err = s₀.err
  quiet : s.bridge.pending = false
  globals : Globals.Rel (Stands Pos.eraseLine) g s.globals
  world : World.Rel (Stands Pos.eraseLine) w s.world

namespace Follows

variable {s₀ s : Session} {g g' : Globals Value} {w w' : World}

theorem start (h : s₀.bridge.pending = false) : Follows s₀ s₀.globals s₀.world.begin s₀ :=
  have hworld := World.Rel.refl (R := Stands Pos.eraseLine) (fun _ => ⟨rfl, rfl, rfl⟩) s₀.world
  ⟨rfl, rfl, rfl, h, Globals.stands_refl _, hworld.cache, hworld.next, hworld.homes⟩

theorem writeOut (h : Follows s₀ g w s) (text : String) : Follows s₀ g w (s.writeOut text) :=
  ⟨h.config, h.library, h.err, h.quiet, h.globals, h.world⟩

theorem printValue (h : Follows s₀ g w s) (v : Value) : Follows s₀ g w (s.printValue v) := by
  rw [Session.printValue]
  split
  · exact h
  · exact h.writeOut _

theorem perform {fuel fuel' : Nat} (hfuel : fuel ≤ fuel') {p : Program} {u : InputUnit}
    (h : Follows s₀ g w s) (hu : u.Says p)
    (hx : execute (.undisturbed s₀.library) fuel s₀.config.filename g p w = ⟨.ok (), g', w'⟩) :
    ∃ s', s.perform fuel' u = some s' ∧ Follows s₀ g' w' s' := by
  have hctx : s.context = .undisturbed s₀.library := by rw [context_of_quiet h.quiet, h.library]
  cases hu with
  | @stmts p' hp =>
    obtain ⟨hout, hg, hw⟩ := execute_lockstep hfuel hp.map_eq h.globals h.world.begin_right
      (by rw [hx])
    rw [hx, ← hctx, ← h.config] at *
    have heval := evaluate_stmts (s := s) (r := .ok ()) rfl hout
    rw [Session.perform, heval]
    exact ⟨_, rfl, h.config, h.library, h.err, bridgeAfter_quiet h.quiet _, hg, hw⟩
  | @expr e q hp =>
    obtain ⟨e₀, q₀, rfl, he⟩ : ∃ e₀ q₀, p = [.expr e₀ q₀] ∧
        e₀.mapPos Pos.eraseLine = e.mapPos Pos.eraseLine := by
      cases hp with
      | @cons s₁ _ _ _ hs hnil =>
        cases hnil
        cases s₁ with
        | expr e₀ q₀ => exact ⟨e₀, q₀, rfl, (Stmt.expr.inj hs).1⟩
        | _ => cases hs
    obtain ⟨hg, n, hn, v, hv⟩ := execute_expr (by rw [hx])
    rw [hx] at hg hv
    cases hg
    obtain ⟨v', w₁, hv', hw⟩ := evaluate_lockstep (hn.trans hfuel) he h.globals
      h.world.begin_right hv
    rw [← hctx, ← h.config] at hv'
    have heval := evaluate_expr (s := s) (r := .ok v') hv'
    rw [Session.perform, heval]
    refine ⟨_, rfl, Follows.printValue ?_ _⟩
    exact ⟨h.config, h.library, h.err, bridgeAfter_quiet h.quiet _, h.globals, hw⟩

/-- The unit that is the first statement does what that does, and leaves the others to be done. -/
theorem perform_cons {fuel fuel' : Nat} (hfuel : fuel ≤ fuel') {p p₁ : Program} {s₁ : Stmt}
    {u : InputUnit} (h : Follows s₀ g w s) (hu : u.Says [s₁]) (hs₁ : s₁.isDirect = true)
    (hp : SameBlock Pos.eraseLine p (s₁ :: p₁))
    (hx : execute (.undisturbed s₀.library) fuel s₀.config.filename g p w = ⟨.ok (), g', w'⟩) :
    ∃ s' g₁ w₁ p', s.perform fuel' u = some s' ∧ Follows s₀ g₁ w₁ s' ∧
      SameBlock Pos.eraseLine p' p₁ ∧ ∃ n ≤ fuel,
        execute (.undisturbed s₀.library) n s₀.config.filename g₁ p' w₁ = ⟨.ok (), g', w'⟩ := by
  cases hp with
  | @cons s₂ _ p' _ hs hp =>
    obtain ⟨hout, n, hn, hx'⟩ := execute_cons (isDirect_of_same hs hs₁) (by rw [hx])
    rw [hx] at hx'
    cases hx₁ : execute (.undisturbed s₀.library) fuel s₀.config.filename g [s₂] w with
    | mk out g₁ w₁ =>
      rw [hx₁] at hout hx'
      cases hout
      obtain ⟨s', hs', hfollows⟩ := h.perform hfuel (hu.of_same (.cons hs .nil)) hx₁
      exact ⟨s', g₁, w₁, p', hs', hfollows, hp, n, hn, hx'⟩

end Follows

/-! ## Sessions -/

def typedLine (line : List Char) : Delivery := ⟨.ok (String.ofList line), false⟩

/-- The lines of a text are typed, and a blank one behind them. -/
def typed (cs : List Char) : List Delivery := (cutLines cs ++ [[]]).map typedLine

section
variable {s₀ s : Session} {g g' : Globals Value} {w w' : World} {fuel : Nat} {shown : List String}

theorem readBlock_typed {b : PendingBlock} {lines : List (List Char)} (shown : List String)
    (h : ∀ line ∈ lines, line.all Text.isBlank = false) :
    ∃ b' shown', s.readBlock b shown ((lines ++ [[]]).map typedLine) = (.ok b', s, ⟨[], shown'⟩) ∧
      b'.lines.toList = b.lines.toList ++ lines.map String.ofList := by
  induction lines generalizing b shown with
  | nil => exact ⟨b, _, rfl, (List.append_nil _).symm⟩
  | cons line lines ih =>
    have hline : Text.isBlankLine (String.ofList line) = false := by
      rw [Text.isBlankLine, String.toList_ofList]
      exact h line List.mem_cons_self
    obtain ⟨b', shown', hread, hlines⟩ := ih (b := b.push (String.ofList line))
      (s.config.continuation :: shown) fun l hl => h l (List.mem_cons_of_mem _ hl)
    refine ⟨b', shown', ?_, ?_⟩
    · rw [List.cons_append, List.map_cons, readBlock]
      simp only [typedLine, hline, Bool.false_eq_true, if_false]
      exact hread
    · rw [hlines, PendingBlock.push, Array.toList_push, List.append_assoc]
      rfl

theorem readLine_typed (prompt : String) (line : List Char) (items : List Delivery) :
    s.readLine prompt ⟨typedLine line :: items, shown⟩ =
      (.ok (String.ofList line), s, ⟨items, prompt :: shown⟩) := rfl

section
variable {line : List Char} {items : List Delivery} {t : Session}

theorem rep_of_idle (hquiet : s.bridge.pending = false)
    (hidle : isIdle (String.ofList line) = true) :
    s.rep fuel ⟨typedLine line :: items, shown⟩ =
      some (.ok (), s, ⟨items, s.config.prompt :: shown⟩) := by
  obtain ⟨b, hb⟩ := Bridge.takeStale_quiet hquiet
  simp only [rep, hb, readLine_typed, hidle, if_true]

theorem rep_of_complete {u : InputUnit} (hquiet : s.bridge.pending = false)
    (hidle : isIdle (String.ofList line) = false)
    (hu : classifyLine (String.ofList line) = some u) (ht : s.perform fuel u = some t) :
    s.rep fuel ⟨typedLine line :: items, shown⟩ =
      some (.ok (), t, ⟨items, s.config.prompt :: shown⟩) := by
  obtain ⟨b, hb⟩ := Bridge.takeStale_quiet hquiet
  simp only [rep, hb, readLine_typed, hidle, Bool.false_eq_true, if_false, hu, ht, Option.map_some]

theorem rep_of_block {b : PendingBlock} {i : Input} (hquiet : s.bridge.pending = false)
    (hidle : isIdle (String.ofList line) = false) (hu : classifyLine (String.ofList line) = none)
    (hb : s.readBlock (.start (String.ofList line)) (s.config.prompt :: shown) items =
      (.ok b, s, i))
    (ht : s.performBlock fuel b = some t) :
    s.rep fuel ⟨typedLine line :: items, shown⟩ = some (.ok (), t, i) := by
  obtain ⟨b', hb'⟩ := Bridge.takeStale_quiet hquiet
  simp only [rep, hb', readLine_typed, hidle, Bool.false_eq_true, if_false, hu, hb, ht,
    Option.map_some]

end

theorem isIdle_eq_true_iff {line : List Char} (hblank : line.all Text.isBlank = false) :
    isIdle (String.ofList line) = true ↔ line.find? (fun c => !Text.isBlank c) = some '#' := by
  rw [isIdle]
  cases hink : Text.firstInk? (String.ofList line) with
  | none =>
    rw [Text.firstInk?_eq_none_iff, Text.isBlankLine, String.toList_ofList, hblank] at hink
    cases hink
  | some c =>
    rw [Text.firstInk?, String.toList_ofList] at hink
    simp [hink]

theorem Follows.run_nil (h : Follows s₀ g w s) : ∃ s' i,
    s.run (fuel + 1) ⟨[], shown⟩ = some (.ok (), s', i) ∧ Follows s₀ g w s' := by
  obtain ⟨b, hb⟩ := Bridge.takeStale_quiet h.quiet
  refine ⟨s.writeOut "\n", ⟨[], s.config.prompt :: shown⟩, ?_, h.writeOut _⟩
  rw [run, turn, rep, hb]
  rfl

theorem run_of_rep {i i' : Input} {t : Session} (h : s.rep fuel i = some (.ok (), t, i')) :
    s.run (fuel + 1) i = t.run fuel i' := by
  rw [run, turn, h]

theorem Follows.run_blank (h : Follows s₀ g w s) : ∃ s' i,
    s.run (fuel + 2) ⟨[typedLine []], shown⟩ = some (.ok (), s', i) ∧ Follows s₀ g w s' := by
  rw [run_of_rep (rep_of_idle h.quiet rfl)]
  exact h.run_nil

theorem performBlock_of_classify {b : PendingBlock} {u : InputUnit}
    (h : classifyBlock s.config.filename b.text = .ok u) :
    s.performBlock fuel b = s.perform fuel u := by
  rw [performBlock, h]

theorem Follows.run_block {line rest cs : List Char} {p₀ p : Program} {fuel' : Nat}
    (h : Follows s₀ g w s) (hbegins : Begins line rest cs) (hline : '\n' ∉ line)
    (hidle : isIdle (String.ofList line) = false) (hu : classifyLine (String.ofList line) = none)
    (hp : Program.parse (String.ofList cs) = .ok p) (hsame : SameBlock Pos.eraseLine p₀ p)
    (hblank : ∀ line ∈ cutLines cs, line.all Text.isBlank = false) (hdangling : ¬Dangling cs)
    (hx : execute (.undisturbed s₀.library) fuel s₀.config.filename g p₀ w = ⟨.ok (), g', w'⟩)
    (hfuel : fuel + 1 ≤ fuel') :
    ∃ s' i, s.run (fuel' + 1) ⟨typed cs, shown⟩ = some (.ok (), s', i) ∧ Follows s₀ g' w' s' := by
  have hcut := hbegins.cutLines hline
  have hrest : ∀ l ∈ cutLines rest, l.all Text.isBlank = false := fun l hl =>
    hblank l (by rw [hcut]; exact List.mem_cons_of_mem _ hl)
  obtain ⟨b, shown', hread, hlines⟩ := readBlock_typed (s := s) (b := .start (String.ofList line))
    (s.config.prompt :: shown) hrest
  have htext : b.text = String.ofList (ended cs) := by
    apply text_eq_ended
    rw [hlines, hcut]
    rfl
  obtain ⟨u, hu', hunit⟩ := classifyBlock_ended s.config.filename hp hblank hdangling
  obtain ⟨t, ht, hfollows⟩ := h.perform (show fuel ≤ fuel' by omega) (hunit.of_same hsame) hx
  rw [← performBlock_of_classify (htext ▸ hu')] at ht
  obtain ⟨n, rfl⟩ : ∃ n, fuel' = n + 1 := ⟨fuel' - 1, by omega⟩
  rw [typed, hcut, List.cons_append, List.map_cons,
    run_of_rep (rep_of_block h.quiet hidle hu hread ht)]
  exact hfollows.run_nil

/-- The lines of a program do what the program does. -/
theorem run_follows (cs : List Char) (shown : List String) {p₀ p : Program} {fuel' : Nat}
    (h : Follows s₀ g w s) (hp : Program.parse (String.ofList cs) = .ok p)
    (hsame : SameBlock Pos.eraseLine p₀ p)
    (hblank : ∀ line ∈ cutLines cs, line.all Text.isBlank = false) (hdangling : ¬Dangling cs)
    (hx : execute (.undisturbed s₀.library) fuel s₀.config.filename g p₀ w = ⟨.ok (), g', w'⟩)
    (hfuel : fuel + (cutLines cs).length + 2 ≤ fuel') :
    ∃ s' i, s.run fuel' ⟨typed cs, shown⟩ = some (.ok (), s', i) ∧ Follows s₀ g' w' s' := by
  -- the session and the execution are kept in step; what is left of the program is read again from
  -- the rest of the lines, so `p` differs from the statements `p₀` that are executed in its places
  induction cs using lines_induction generalizing s g w p₀ p fuel fuel' shown with
  | nil =>
    obtain ⟨k, rfl⟩ : ∃ k, fuel' = k + 2 := ⟨fuel' - 2, by omega⟩
    rw [parse_nil] at hp
    cases hp
    cases hsame
    obtain ⟨rfl, rfl⟩ : g = g' ∧ w = w' := by
      cases fuel <;> cases hx
      exact ⟨rfl, rfl⟩
    exact h.run_blank
  | begins line rest cs hline hbegins ih =>
    have hcut := hbegins.cutLines hline
    rw [hcut, List.length_cons] at hfuel
    obtain ⟨k, rfl⟩ : ∃ k, fuel' = k + 1 := ⟨fuel' - 1, by omega⟩
    have hink := hblank line (by rw [hcut]; exact List.mem_cons_self)
    have hrest : ∀ l ∈ cutLines rest, l.all Text.isBlank = false := fun l hl =>
      hblank l (by rw [hcut]; exact List.mem_cons_of_mem _ hl)
    have htyped : typed cs = typedLine line :: typed rest := by rw [typed, hcut]; rfl
    cases hidle : isIdle (String.ofList line) with
    | true =>
      obtain ⟨hdangling', p', hp', hsame'⟩ := hbegins.parse_of_idle hline
        ((isIdle_eq_true_iff hink).1 hidle) hp
      rw [htyped, run_of_rep (rep_of_idle h.quiet hidle)]
      exact ih _ h hp' (hsame.trans hsame') hrest (mt hdangling' hdangling) hx (by omega)
    | false =>
      cases hu : classifyLine (String.ofList line) with
      | some u =>
        obtain ⟨hdangling', s₁, p₁, p₂, rfl, hdirect, hunit, hp₂, hsame₂⟩ :=
          hbegins.parse_of_complete hline hu hp
        obtain ⟨t, g₁, w₁, p', ht, hfollows, hp', n, hn, hx'⟩ :=
          h.perform_cons (show fuel ≤ k by omega) hunit hdirect hsame hx
        rw [htyped, run_of_rep (rep_of_complete h.quiet hidle hu ht)]
        exact ih _ hfollows hp₂ (hp'.trans hsame₂) hrest (mt hdangling' hdangling) hx' (by omega)
      | none =>
        exact h.run_block hbegins hline hidle hu hp hsame hblank hdangling hx (by omega)

/-- Typing a program does what executing it in one go does. If the text is a program, no line of it
is blank and it does not dangle, and if the execution of the program succeeds, then the session
reads the lines, and a blank one behind them, to the end, reports no failure, and leaves the same
globals, but for the lines of the places in functions. -/
theorem run_typed {text : String} {p : Program} {t : Session} (hquiet : s.bridge.pending = false)
    (hblank : ∀ line ∈ cutLines text.toList, line.all Text.isBlank = false)
    (hdangling : ¬Dangling text.toList) (hp : parseProgram s.config.filename text = .ok p)
    (ht : s.evaluate fuel (.stmts p) = some (.ok none, t)) :
    ∀ fuel' ≥ fuel + (cutLines text.toList).length + 2, ∃ s' i,
      s.run fuel' (.ofItems (typed text.toList)) = some (.ok (), s', i) ∧ s'.err = s.err ∧
        Globals.Rel (Stands Pos.eraseLine) t.globals s'.globals := by
  have hx : execute (.undisturbed s.library) fuel s.config.filename s.globals p s.world.begin =
      ⟨.ok (), t.globals, t.world⟩ := by
    simp only [evaluate, context_of_quiet hquiet] at ht
    generalize execute (.undisturbed s.library) fuel s.config.filename s.globals p s.world.begin = x
      at ht ⊢
    cases x with
    | mk out g w =>
      rcases out with (_ | _) | _ <;> cases ht
      rfl
  have hp' : Program.parse (String.ofList text.toList) = .ok p := by
    rw [String.ofList_toList]
    exact ok_of_parseProgram hp
  intro fuel' hfuel
  obtain ⟨s', i, hrun, hfollows⟩ := run_follows text.toList [] (Follows.start hquiet) hp'
    (List.forall₂_same.2 fun s _ => .refl s) hblank hdangling hx hfuel
  exact ⟨s', i, hrun, hfollows.err, hfollows.globals⟩

/-- A session to which nothing has been typed. -/
def blank : Session := Session.start .usual (.ofTexts .empty)

/-- A binding, a comment, and a block that ends with the text. -/
def branchingText : String := "x = True\n# choose\nif x:\n  y = x"

theorem run_typed_branching : ∃ p t, blank.bridge.pending = false ∧
    (∀ line ∈ cutLines branchingText.toList, line.all Text.isBlank = false) ∧
    ¬Dangling branchingText.toList ∧ parseProgram blank.config.filename branchingText = .ok p ∧
    blank.evaluate 9 (.stmts p) = some (.ok none, t) ∧ t.globals.bindings.names = ["x", "y"] ∧
    ∃ s' i, blank.run 15 (.ofItems (typed branchingText.toList)) = some (.ok (), s', i) ∧
      s'.err = blank.err ∧ Globals.Rel (Stands Pos.eraseLine) t.globals s'.globals := by
  have hlines : cutLines branchingText.toList =
      ["x = True".toList, "# choose".toList, "if x:".toList, "  y = x".toList] := by cbv
  have hblank : ∀ line ∈ cutLines branchingText.toList, line.all Text.isBlank = false := by
    rw [hlines]
    decide
  have hdangling : ¬Dangling branchingText.toList := by
    rintro ⟨s, hs, hphase, -⟩
    have hword : (Scanner.start.run .program branchingText.toList).map Scanner.phase =
        .ok (.word ⟨4, 7⟩ ['x']) := by cbv
    rw [hs] at hword
    cases hphase.symm.trans (Except.ok.inj hword)
  have hp : parseProgram blank.config.filename branchingText = .ok [.assign "x" (.bool true) ⟨1, 1⟩,
      .if_ (.name "x" ⟨3, 4⟩) [.assign "y" (.name "x" ⟨4, 7⟩) ⟨4, 3⟩] [] ⟨3, 1⟩] := by cbv
  have hrun := run_typed (s := blank) rfl hblank hdangling hp
    (show blank.evaluate 9 (.stmts _) = some (.ok none, _) from rfl) 15 (by rw [hlines]; decide)
  exact ⟨_, _, rfl, hblank, hdangling, hp, rfl, rfl, hrun⟩

/-- Its last line is a comment behind a backslash, in a block. -/
def danglingText : String := "if True:\n  x = 1\n  \\\n # c"

/-- Executing it binds a name. But a session ends the lines of a block, and the last line end is a
token that no statement begins with: the session that the lines are typed into reports a failure and
binds nothing. -/
theorem run_typed_dangling :
    (∀ line ∈ cutLines danglingText.toList, line.all Text.isBlank = false) ∧
    ∃ p, parseProgram blank.config.filename danglingText = .ok p ∧
      (blank.evaluate 9 (.stmts p)).map (fun r => (r.1, r.2.globals.bindings.names)) =
        some (.ok none, ["x"]) ∧
      (blank.run 9 (.ofItems (typed danglingText.toList))).map
        (fun r => (r.1, r.2.1.err.text, r.2.1.globals.bindings.names)) =
          some (.ok (), "<stdin>:4:5: got newline, want primary expression\n", []) := by
  have hlines : cutLines danglingText.toList =
      ["if True:".toList, "  x = 1".toList, "  \\".toList, " # c".toList] := by cbv
  have hp : parseProgram blank.config.filename danglingText = .ok [.if_ (.bool true)
      [.assign "x" (.int ⟨1, by decide, by decide⟩) ⟨2, 3⟩] [] ⟨1, 1⟩] := by cbv
  have hline : classifyLine "if True:" = none := by cbv
  have hblock : classifyBlock blank.config.filename (danglingText ++ "\n") =
      .error (SyntaxError.inFile "<stdin>" ⟨⟨4, 5⟩, .wantPrimary .newline⟩) := by
    have hexpr : Expr.parse (danglingText ++ "\n") =
        .error ⟨⟨1, 1⟩, .wantPrimary (.keyword .if_)⟩ := by cbv
    have hprogram : Program.parse (danglingText ++ "\n") =
        .error ⟨⟨4, 5⟩, .wantPrimary .newline⟩ := by cbv
    rw [classifyBlock, hexpr, parseProgram, hprogram]
    rfl
  have hperform : blank.performBlock 8 ⟨#["if True:", "  x = 1", "  \\", " # c"]⟩ =
      some (blank.printError (SyntaxError.inFile "<stdin>" ⟨⟨4, 5⟩, .wantPrimary .newline⟩)) := by
    have htext : PendingBlock.text ⟨#["if True:", "  x = 1", "  \\", " # c"]⟩ =
        danglingText ++ "\n" := by decide
    rw [performBlock, htext, hblock]
  have hrun : blank.run 9 (.ofItems ((["if True:".toList, "  x = 1".toList, "  \\".toList,
      " # c".toList] ++ [[]]).map typedLine)) = _ :=
    run_of_rep (rep_of_block rfl rfl hline rfl hperform)
  refine ⟨?_, _, hp, rfl, ?_⟩
  · rw [hlines]
    decide
  · rw [typed, hlines, hrun]
    rfl

end

end Session
end ScriptShell
