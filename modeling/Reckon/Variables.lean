/-!
# Variables

The variables of a session: a value for each of finitely many names, kept in the order of the names.
-/

namespace Reckon

/-- The names of bindings increase, so that none is bound twice. -/
def Variables.IsSorted (bindings : List (String × Int)) : Prop :=
  bindings.Pairwise fun b c => b.1 < c.1

/-- Values by name. -/
structure Variables where
  /-- Names and values. -/
  bindings : List (String × Int)
  /-- They are in increasing order of the names. -/
  sorted : Variables.IsSorted bindings
deriving DecidableEq, Repr

namespace Variables

/-- No variables. -/
def empty : Variables := ⟨[], .nil⟩

instance : EmptyCollection Variables := ⟨empty⟩

/-- The value of a name, if it has one. -/
def get? (vars : Variables) (ident : String) : Option Int := vars.bindings.lookup ident

/-- Whether a name has a value. -/
def contains (vars : Variables) (ident : String) : Bool := (vars.get? ident).isSome

/-- Puts a value into a list of bindings, in the place of the one that the name had or where the
order of names wants it. -/
def insert (ident : String) (value : Int) : List (String × Int) → List (String × Int)
  | [] => [(ident, value)]
  | (other, v) :: rest =>
    if ident = other then (ident, value) :: rest
    else if ident < other then (ident, value) :: (other, v) :: rest
    else (other, v) :: insert ident value rest

theorem mem_insert {ident : String} {value : Int} {bindings : List (String × Int)}
    {b : String × Int} (h : b ∈ insert ident value bindings) :
    b = (ident, value) ∨ b ∈ bindings := by
  induction bindings with
  | nil => exact .inl (List.mem_singleton.1 h)
  | cons c rest ih =>
    simp only [insert] at h
    split at h
    · exact (List.mem_cons.1 h).imp_right (List.mem_cons_of_mem c)
    · split at h
      · exact List.mem_cons.1 h
      · rcases List.mem_cons.1 h with rfl | h
        · exact .inr List.mem_cons_self
        · exact (ih h).imp_right (List.mem_cons_of_mem c)

/-- A binding that is put in its place leaves the names in order. -/
theorem isSorted_insert {bindings : List (String × Int)} (h : IsSorted bindings) (ident : String)
    (value : Int) : IsSorted (insert ident value bindings) := by
  induction h with
  | nil => exact List.pairwise_singleton _ _
  | @cons c rest hc hrest ih =>
    simp only [insert]
    split
    · next heq => exact .cons (heq ▸ hc) hrest
    · next hne =>
      split
      · next hlt =>
        refine .cons (fun d hd => ?_) (.cons hc hrest)
        rcases List.mem_cons.1 hd with rfl | hd
        · exact hlt
        · exact String.lt_trans hlt (hc d hd)
      · next hge =>
        refine .cons (fun d hd => ?_) ih
        rcases mem_insert hd with rfl | hd
        · exact Decidable.byContradiction fun hle =>
            hne (String.le_antisymm (String.not_lt.1 hle) (String.not_lt.1 hge))
        · exact hc d hd

/-- Gives a value to a name. -/
def set (vars : Variables) (ident : String) (value : Int) : Variables :=
  ⟨insert ident value vars.bindings, isSorted_insert vars.sorted ident value⟩

/-- The variables that result from giving values one after the other. -/
def ofList (bindings : List (String × Int)) : Variables :=
  bindings.foldl (fun vars b => vars.set b.1 b.2) empty

/-- Names and values, in increasing order of the names. -/
def toList (vars : Variables) : List (String × Int) := vars.bindings

private theorem lookup_cons (other ident : String) (value : Int) (rest : List (String × Int)) :
    ((ident, value) :: rest).lookup other =
      if other = ident then some value else rest.lookup other := by
  by_cases h : other = ident
  · simp [h]
  · rw [List.lookup_cons, beq_eq_false_iff_ne.2 h, if_neg h]

theorem lookup_insert (ident other : String) (value : Int) (bindings : List (String × Int)) :
    (insert ident value bindings).lookup other =
      if other = ident then some value else bindings.lookup other := by
  induction bindings with
  | nil => simp [insert, lookup_cons]
  | cons b rest ih =>
    obtain ⟨name, v⟩ := b
    simp only [insert]
    split
    · subst_vars
      grind [lookup_cons]
    · split <;> grind [lookup_cons]

/-- A name has the value it was last given, and giving it one leaves the other names alone. -/
@[simp] theorem get?_set (vars : Variables) (ident other : String) (value : Int) :
    (vars.set ident value).get? other = if other = ident then some value else vars.get? other :=
  lookup_insert ident other value vars.bindings

end Variables

end Reckon
