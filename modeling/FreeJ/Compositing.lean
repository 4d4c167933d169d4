import Mathlib.Data.List.Perm.Basic

/-!
# Compositing

A stack of sheets over a base. At each point a sheet turns the colour below it into another one,
or lets it through; the first sheet of the list is on top. What is seen of the stack is the
composite. Points and colours are arbitrary.

## Main results

* `composite_eq_of_covers`: what is under a sheet that covers a point is not seen there.
* `composite_perm`: the order of sheets that commute does not matter.
* `composite_twice`: a stack of sheets that undo themselves undoes itself.
-/

namespace FreeJ

variable {P C : Type*}

/-- A sheet: the colour at a point, from the one below. -/
abbrev Sheet (P C : Type*) := P → C → C

/-- What is seen of the sheets over a base. -/
def composite (sheets : List (Sheet P C)) (base : P → C) : P → C := fun p =>
  sheets.foldr (fun sheet c => sheet p c) (base p)

/-- The sheet lets everything through at a point. -/
def Sheet.Bare (sheet : Sheet P C) (p : P) : Prop := ∀ c, sheet p c = c

/-- The sheet lets nothing through at a point. -/
def Sheet.Covers (sheet : Sheet P C) (p : P) : Prop := ∀ c c', sheet p c = sheet p c'

/-- Two sheets look the same whichever of them is on top. -/
def Sheet.Commute (s t : Sheet P C) : Prop := ∀ p c, s p (t p c) = t p (s p c)

variable {sheets front back : List (Sheet P C)} {sheet s t : Sheet P C} {base base' : P → C} {p : P}

@[simp]
theorem composite_nil : composite [] base = base := rfl

@[simp]
theorem composite_cons : composite (sheet :: sheets) base p = sheet p (composite sheets base p) :=
  rfl

/-- The sheets in front see the composite of those behind as their base. -/
theorem composite_append :
    composite (front ++ back) base = composite front (composite back base) := by
  funext p
  rw [composite, List.foldr_append]
  rfl

/-- Only the base at the point matters. -/
theorem composite_congr (h : base p = base' p) :
    composite sheets base p = composite sheets base' p := by
  rw [composite, composite, h]

/-- **What is covered is not seen**: neither the sheets behind one that covers the point nor the
base. -/
theorem composite_eq_of_covers (h : sheet.Covers p) (back' : List (Sheet P C)) :
    composite (front ++ sheet :: back) base p = composite (front ++ sheet :: back') base' p := by
  rw [composite_append, composite_append]
  exact composite_congr (h (composite back base p) (composite back' base' p))

/-- **The order of sheets that commute** does not matter. -/
theorem composite_perm {sheets' : List (Sheet P C)} (hperm : sheets.Perm sheets')
    (hcomm : ∀ s ∈ sheets, ∀ t ∈ sheets, s.Commute t) :
    composite sheets base = composite sheets' base := by
  funext p
  exact hperm.foldr_eq' (fun s hs t ht c => (hcomm t ht s hs p c)) (base p)

/-- **What undoes itself** sheet by sheet undoes itself as a whole, if the sheets commute. -/
theorem composite_twice (hinv : ∀ s ∈ sheets, ∀ p c, s p (s p c) = c)
    (hcomm : ∀ s ∈ sheets, ∀ t ∈ sheets, s.Commute t) :
    composite sheets (composite sheets base) = base := by
  induction sheets with
  | nil => rfl
  | cons s sheets ih =>
      obtain ⟨hs, hinv⟩ := List.forall_mem_cons.mp hinv
      have hrest (t) (ht : t ∈ sheets) (t') (ht' : t' ∈ sheets) : t.Commute t' :=
        hcomm t (List.mem_cons_of_mem _ ht) t' (List.mem_cons_of_mem _ ht')
      -- the sheet on top moves down through the others to its own copy
      have hdown : composite sheets (composite (s :: sheets) base) =
          composite (s :: sheets) (composite sheets base) := by
        rw [← composite_append, ← composite_append]
        have hmem {t : Sheet P C} (ht : t ∈ sheets ++ s :: sheets) : t ∈ s :: sheets :=
          (List.mem_append.mp ht).elim (List.mem_cons_of_mem s) id
        exact composite_perm List.perm_middle fun t ht t' ht' => hcomm t (hmem ht) t' (hmem ht')
      funext p
      rw [composite_cons, hdown, composite_cons, hs, ih hinv hrest]

end FreeJ
