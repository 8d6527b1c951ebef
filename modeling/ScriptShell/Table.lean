/-!
# ScriptShell.Table

Tables from names to values, kept in increasing order of the names (by code points), each name
once. Two tables with the same entries are the same table.

* `Table.get?`, `Table.insert`, `Table.erase`: look up, bind, unbind.
* `Table.get?_insert`, `Table.get?_erase`: what they do to every name.
-/

namespace ScriptShell

/-- The entries of a table with one name bound, in order. -/
def insertSorted {α : Type} (k : String) (v : α) : List (String × α) → List (String × α)
  | [] => [(k, v)]
  | (k', v') :: es =>
    if k < k' then (k, v) :: (k', v') :: es
    else if k = k' then (k, v) :: es
    else (k', v') :: insertSorted k v es

theorem mem_insertSorted {α : Type} {k : String} {v : α} {e : String × α}
    {es : List (String × α)} (h : e ∈ insertSorted k v es) : e = (k, v) ∨ e ∈ es := by
  induction es with
  | nil => simpa [insertSorted] using h
  | cons hd tl ih =>
    obtain ⟨k', v'⟩ := hd
    rw [insertSorted] at h
    split at h
    · simpa using h
    · split at h
      · rcases List.mem_cons.1 h with h | h
        · exact .inl h
        · exact .inr (List.mem_cons_of_mem _ h)
      · rcases List.mem_cons.1 h with h | h
        · exact .inr (h ▸ List.mem_cons_self)
        · rcases ih h with h | h
          · exact .inl h
          · exact .inr (List.mem_cons_of_mem _ h)

theorem lt_of_not_lt_of_ne {a b : String} (h : ¬ a < b) (h' : a ≠ b) : b < a := by
  refine Decidable.byContradiction fun hn => h' ?_
  exact String.le_antisymm (String.not_lt.1 hn) (String.not_lt.1 h)

theorem pairwise_insertSorted {α : Type} (k : String) (v : α) {es : List (String × α)}
    (h : es.Pairwise (fun a b => a.1 < b.1)) :
    (insertSorted k v es).Pairwise (fun a b => a.1 < b.1) := by
  induction es with
  | nil => simp [insertSorted]
  | cons hd tl ih =>
    obtain ⟨k', v'⟩ := hd
    rw [List.pairwise_cons] at h
    rw [insertSorted]
    split
    · rename_i hlt
      refine List.pairwise_cons.2 ⟨fun e he => ?_, List.pairwise_cons.2 h⟩
      rcases List.mem_cons.1 he with rfl | he
      · exact hlt
      · exact String.lt_trans hlt (h.1 e he)
    · split
      · rename_i heq
        subst heq
        exact List.pairwise_cons.2 h
      · rename_i hnlt hne
        refine List.pairwise_cons.2 ⟨fun e he => ?_, ih h.2⟩
        rcases mem_insertSorted he with rfl | he
        · exact lt_of_not_lt_of_ne hnlt hne
        · exact h.1 e he

/-- A table from names to values. -/
structure Table (α : Type) where
  entries : List (String × α)
  sorted : entries.Pairwise (fun a b => a.1 < b.1)

namespace Table

variable {α : Type}

/-- The table that binds nothing. -/
def empty : Table α := ⟨[], .nil⟩

instance : Inhabited (Table α) := ⟨empty⟩

/-- The value bound to a name. -/
def get? (t : Table α) (k : String) : Option α :=
  t.entries.lookup k

/-- Is the name bound? -/
def contains (t : Table α) (k : String) : Bool :=
  (t.get? k).isSome

/-- Bind a name, replacing what it was bound to. -/
def insert (t : Table α) (k : String) (v : α) : Table α :=
  ⟨insertSorted k v t.entries, pairwise_insertSorted k v t.sorted⟩

/-- Unbind a name. -/
def erase (t : Table α) (k : String) : Table α :=
  ⟨t.entries.filter (fun e => e.1 != k), t.sorted.filter _⟩

/-- The table of a list of bindings; of two for one name the later counts. -/
def ofList (es : List (String × α)) : Table α :=
  es.foldl (fun t e => t.insert e.1 e.2) empty

/-- The bound names, in order. -/
def names (t : Table α) : List String :=
  t.entries.map Prod.fst

/-- The number of bound names. -/
def size (t : Table α) : Nat :=
  t.entries.length

theorem lookup_entry (k k' : String) (v : α) (es : List (String × α)) :
    ((k, v) :: es).lookup k' = if k' = k then some v else es.lookup k' := by
  by_cases h : k' = k
  · simp [h]
  · rw [List.lookup_cons, if_neg h, beq_false_of_ne h]

theorem lookup_insertSorted (k k' : String) (v : α) (es : List (String × α)) :
    (insertSorted k v es).lookup k' = if k' = k then some v else es.lookup k' := by
  induction es with
  | nil => rw [insertSorted, lookup_entry]
  | cons hd tl ih =>
    obtain ⟨k₁, v₁⟩ := hd
    rw [insertSorted]
    split
    · rw [lookup_entry]
    · split
      · rename_i heq
        subst heq
        rw [lookup_entry, lookup_entry]
        by_cases h : k' = k <;> simp [h]
      · rename_i hne
        rw [lookup_entry, lookup_entry, ih]
        by_cases h : k' = k₁
        · subst h; simp [Ne.symm hne]
        · simp [h]

@[simp] theorem get?_empty (k : String) : (empty : Table α).get? k = none := rfl

theorem get?_insert (t : Table α) (k k' : String) (v : α) :
    (t.insert k v).get? k' = if k' = k then some v else t.get? k' :=
  lookup_insertSorted k k' v t.entries

theorem lookup_filter_ne (k k' : String) (es : List (String × α)) :
    (es.filter (fun e => e.1 != k)).lookup k' = if k' = k then none else es.lookup k' := by
  induction es with
  | nil => simp
  | cons hd tl ih =>
    obtain ⟨k₁, v₁⟩ := hd
    rw [lookup_entry]
    by_cases h : k₁ = k
    · subst h
      rw [List.filter_cons_of_neg (by simp), ih]
      by_cases h' : k' = k₁ <;> simp [h']
    · rw [List.filter_cons_of_pos (by simp [h]), lookup_entry, ih]
      by_cases h' : k' = k₁
      · subst h'; simp [h]
      · simp [h']

theorem get?_erase (t : Table α) (k k' : String) :
    (t.erase k).get? k' = if k' = k then none else t.get? k' :=
  lookup_filter_ne k k' t.entries

end Table
end ScriptShell
