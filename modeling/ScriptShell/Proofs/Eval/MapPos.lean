import ScriptShell.Eval.Machine

/-!
# ScriptShell.Proofs.Eval.MapPos

Moving the places that syntax carries. Evaluation shows places in failures and looks at them nowhere
else, so programs that differ in their places alone are evaluated alike.

* `Expr.mapPos`, `Stmt.mapPos`: a piece of syntax with every place moved.
* `Definition.mapPos`, `CallChain.mapPos`, `Error.mapPos`: what is made of syntax.
-/

namespace ScriptShell

/-- An expression with every place moved. -/
def Expr.mapPos (π : Pos → Pos) : Expr → Expr
  | .none => .none
  | .bool b => .bool b
  | .int i => .int i
  | .str s => .str s
  | .name id p => .name id (π p)
  | .unary op e p => .unary op (e.mapPos π) (π p)
  | .binary op l r p => .binary op (l.mapPos π) (r.mapPos π) (π p)
  | .call f args p => .call (f.mapPos π) (mapArgs args) (π p)
where
  mapArgs : List Expr → List Expr
    | [] => []
    | e :: es => e.mapPos π :: mapArgs es

theorem Expr.mapArgs_eq_map (π : Pos → Pos) (es : List Expr) :
    Expr.mapPos.mapArgs π es = es.map (Expr.mapPos π) := by
  induction es with
  | nil => rfl
  | cons e es ih => rw [Expr.mapPos.mapArgs, ih, List.map_cons]

/-- A statement with every place moved. -/
def Stmt.mapPos (π : Pos → Pos) : Stmt → Stmt
  | .expr e p => .expr (e.mapPos π) (π p)
  | .assign name e p => .assign name (e.mapPos π) (π p)
  | .load module imports p => .load module imports (π p)
  | .define name params body p => .define name params (mapBlock body) (π p)
  | .return_ e p => .return_ (e.map (Expr.mapPos π)) (π p)
  | .if_ cond thenPart elsePart p =>
    .if_ (cond.mapPos π) (mapBlock thenPart) (mapBlock elsePart) (π p)
  | .while_ cond body p => .while_ (cond.mapPos π) (mapBlock body) (π p)
  | .pass => .pass
where
  mapBlock : List Stmt → List Stmt
    | [] => []
    | s :: ss => s.mapPos π :: mapBlock ss

theorem Stmt.mapBlock_eq_map (π : Pos → Pos) (ss : List Stmt) :
    Stmt.mapPos.mapBlock π ss = ss.map (Stmt.mapPos π) := by
  induction ss with
  | nil => rfl
  | cons s ss ih => rw [Stmt.mapPos.mapBlock, ih, List.map_cons]

theorem Expr.mapPos_call (π : Pos → Pos) (f : Expr) (args : List Expr) (p : Pos) :
    (Expr.call f args p).mapPos π = .call (f.mapPos π) (args.map (Expr.mapPos π)) (π p) := by
  rw [Expr.mapPos, Expr.mapArgs_eq_map]

theorem Stmt.mapPos_define (π : Pos → Pos) (name : String) (params : List String)
    (body : List Stmt) (p : Pos) :
    (Stmt.define name params body p).mapPos π =
      .define name params (body.map (Stmt.mapPos π)) (π p) := by
  rw [Stmt.mapPos, Stmt.mapBlock_eq_map]

theorem Stmt.mapPos_if (π : Pos → Pos) (cond : Expr) (thenPart elsePart : List Stmt) (p : Pos) :
    (Stmt.if_ cond thenPart elsePart p).mapPos π =
      .if_ (cond.mapPos π) (thenPart.map (Stmt.mapPos π)) (elsePart.map (Stmt.mapPos π))
        (π p) := by
  rw [Stmt.mapPos, Stmt.mapBlock_eq_map, Stmt.mapBlock_eq_map]

theorem Stmt.mapPos_while (π : Pos → Pos) (cond : Expr) (body : List Stmt) (p : Pos) :
    (Stmt.while_ cond body p).mapPos π =
      .while_ (cond.mapPos π) (body.map (Stmt.mapPos π)) (π p) := by
  rw [Stmt.mapPos, Stmt.mapBlock_eq_map]

mutual

theorem Expr.mapPos_mapPos (π ρ : Pos → Pos) : ∀ e : Expr,
    (e.mapPos ρ).mapPos π = e.mapPos (π ∘ ρ)
  | .none | .bool _ | .int _ | .str _ | .name _ _ => rfl
  | .unary op e p => by simp only [mapPos, mapPos_mapPos π ρ e, Function.comp]
  | .binary op l r p => by
    simp only [mapPos, mapPos_mapPos π ρ l, mapPos_mapPos π ρ r, Function.comp]
  | .call f args p => by
    simp only [mapPos, mapPos_mapPos π ρ f, mapArgs_mapArgs π ρ args, Function.comp]

theorem Expr.mapArgs_mapArgs (π ρ : Pos → Pos) : ∀ es : List Expr,
    Expr.mapPos.mapArgs π (Expr.mapPos.mapArgs ρ es) = Expr.mapPos.mapArgs (π ∘ ρ) es
  | [] => rfl
  | e :: es => by simp only [mapPos.mapArgs, mapPos_mapPos π ρ e, mapArgs_mapArgs π ρ es]

end

mutual

theorem Stmt.mapPos_mapPos (π ρ : Pos → Pos) : ∀ s : Stmt,
    (s.mapPos ρ).mapPos π = s.mapPos (π ∘ ρ)
  | .expr e p => by simp only [mapPos, Expr.mapPos_mapPos, Function.comp]
  | .assign name e p => by simp only [mapPos, Expr.mapPos_mapPos, Function.comp]
  | .load module imports p => rfl
  | .define name params body p => by
    simp only [mapPos, mapBlock_mapBlock π ρ body, Function.comp]
  | .return_ none p => rfl
  | .return_ (some e) p => by
    simp only [mapPos, Option.map_some, Expr.mapPos_mapPos, Function.comp]
  | .if_ cond thenPart elsePart p => by
    simp only [mapPos, Expr.mapPos_mapPos, mapBlock_mapBlock π ρ thenPart,
      mapBlock_mapBlock π ρ elsePart, Function.comp]
  | .while_ cond body p => by
    simp only [mapPos, Expr.mapPos_mapPos, mapBlock_mapBlock π ρ body, Function.comp]
  | .pass => rfl

theorem Stmt.mapBlock_mapBlock (π ρ : Pos → Pos) : ∀ ss : List Stmt,
    Stmt.mapPos.mapBlock π (Stmt.mapPos.mapBlock ρ ss) = Stmt.mapPos.mapBlock (π ∘ ρ) ss
  | [] => rfl
  | s :: ss => by simp only [mapPos.mapBlock, mapPos_mapPos π ρ s, mapBlock_mapBlock π ρ ss]

end

mutual

theorem Expr.mapPos_id : ∀ e : Expr, e.mapPos id = e
  | .none | .bool _ | .int _ | .str _ | .name _ _ => rfl
  | .unary op e p => by simp only [mapPos, mapPos_id e, id]
  | .binary op l r p => by simp only [mapPos, mapPos_id l, mapPos_id r, id]
  | .call f args p => by simp only [mapPos, mapPos_id f, mapArgs_id args, id]

theorem Expr.mapArgs_id : ∀ es : List Expr, Expr.mapPos.mapArgs id es = es
  | [] => rfl
  | e :: es => by simp only [mapPos.mapArgs, mapPos_id e, mapArgs_id es]

end

mutual

theorem Stmt.mapPos_id : ∀ s : Stmt, s.mapPos id = s
  | .expr e p => by simp only [mapPos, Expr.mapPos_id, id]
  | .assign name e p => by simp only [mapPos, Expr.mapPos_id, id]
  | .load module imports p => rfl
  | .define name params body p => by simp only [mapPos, mapBlock_id body, id]
  | .return_ none p => rfl
  | .return_ (some e) p => by simp only [mapPos, Option.map_some, Expr.mapPos_id, id]
  | .if_ cond thenPart elsePart p => by
    simp only [mapPos, Expr.mapPos_id, mapBlock_id thenPart, mapBlock_id elsePart, id]
  | .while_ cond body p => by simp only [mapPos, Expr.mapPos_id, mapBlock_id body, id]
  | .pass => rfl

theorem Stmt.mapBlock_id : ∀ ss : List Stmt, Stmt.mapPos.mapBlock id ss = ss
  | [] => rfl
  | s :: ss => by simp only [mapPos.mapBlock, mapPos_id s, mapBlock_id ss]

end

/-- A definition with every place moved. -/
def Definition.mapPos (π : Pos → Pos) (d : Definition) : Definition :=
  ⟨d.name, d.params, d.body.map (Stmt.mapPos π), π d.pos⟩

theorem Definition.mapPos_id (d : Definition) : d.mapPos id = d := by
  have hbody := Stmt.mapBlock_id d.body
  rw [Stmt.mapBlock_eq_map] at hbody
  rw [Definition.mapPos, hbody, id]

def Frame.mapPos (π : Pos → Pos) (f : Frame) : Frame :=
  ⟨⟨f.location.file, π f.location.pos⟩, f.function⟩

def CallChain.mapPos (π : Pos → Pos) (c : CallChain) : CallChain :=
  ⟨c.file, c.function, c.callers.map (Frame.mapPos π)⟩

theorem CallChain.depth_mapPos (π : Pos → Pos) (c : CallChain) : (c.mapPos π).depth = c.depth := by
  simp only [CallChain.depth, CallChain.mapPos, List.length_map]

/-- A failure with every place of the active calls moved. -/
def Error.mapPos (π : Pos → Pos) : Error → Error
  | .eval text stack => .eval text (stack.map (List.map (Frame.mapPos π)))
  | e => e

theorem Error.mapPos_id (e : Error) : e.mapPos id = e := by
  have hframe : Frame.mapPos id = id := rfl
  cases e with
  | eval text stack => rw [Error.mapPos, hframe, List.map_id_fun, Option.map_id]; rfl
  | _ => rfl

theorem CallChain.stackAt_mapPos (π : Pos → Pos) (c : CallChain) (p : Pos) :
    (c.stackAt p).map (Frame.mapPos π) = (c.mapPos π).stackAt (π p) := by
  simp only [CallChain.stackAt, CallChain.mapPos, CallChain.frame, List.map_reverse,
    List.map_cons, Frame.mapPos]

end ScriptShell
