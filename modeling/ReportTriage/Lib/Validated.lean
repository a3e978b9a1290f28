import Mathlib.Data.Nat.Notation

/-!
# Checks that report every error

A record is validated field by field. It is built when every field passes its check; otherwise
the errors of all fields are reported together, in the order of the fields.

## Main definitions

* `Validated` — a value, or at least one error; an applicative.
* `Validated.andThen` — a check that needs the value of another one.
-/

inductive Validated (ε α : Type)
  | ok (a : α)
  | errors (first : ε) (rest : List ε)
  deriving Repr

namespace Validated
variable {ε α β : Type}

/-- Both checks are made. -/
def both : Validated ε (α → β) → Validated ε α → Validated ε β
  | ok f, ok a => ok (f a)
  | ok _, errors first rest => errors first rest
  | errors first rest, ok _ => errors first rest
  | errors first rest, errors first' rest' => errors first (rest ++ first' :: rest')

instance : Applicative (Validated ε) where
  pure := ok
  seq f x := both f (x ())

/-- In whatever order checks are grouped, they are all made, and their errors are reported in
order. -/
instance : LawfulApplicative (Validated ε) where
  map_const := rfl
  id_map x := by cases x <;> rfl
  seqLeft_eq _ _ := rfl
  seqRight_eq _ _ := rfl
  pure_seq _ _ := rfl
  map_pure _ _ := rfl
  seq_pure x _ := by cases x <;> rfl
  seq_assoc x y z := by
    cases x <;> cases y <;> cases z <;>
      simp [Seq.seq, Functor.map, both, List.append_assoc]

/-- One error. -/
def error (e : ε) : Validated ε α := errors e []

/-- What is built only once something else is. -/
def andThen : Validated ε α → (α → Validated ε β) → Validated ε β
  | ok a, f => f a
  | errors first rest, _ => errors first rest

@[simp] theorem andThen_ok (a : α) (f : α → Validated ε β) : (ok a).andThen f = f a := rfl

@[simp] theorem map_ok (f : α → β) (a : α) : f <$> (ok a : Validated ε α) = ok (f a) := rfl

@[simp] theorem ok_seq_ok (f : α → β) (a : α) : (ok f : Validated ε (α → β)) <*> ok a = ok (f a) :=
  rfl

theorem andThen_eq_ok {x : Validated ε α} {f : α → Validated ε β} {b : β} :
    x.andThen f = ok b ↔ ∃ a, x = ok a ∧ f a = ok b := by
  cases x <;> simp [andThen]

theorem map_eq_ok {x : Validated ε α} {f : α → β} {b : β} :
    f <$> x = ok b ↔ ∃ a, x = ok a ∧ f a = b := by
  cases x <;> simp [Functor.map, both]

theorem seq_eq_ok {g : Validated ε (α → β)} {x : Validated ε α} {b : β} :
    g <*> x = ok b ↔ ∃ f a, g = ok f ∧ x = ok a ∧ f a = b := by
  cases g <;> cases x <;> simp [Seq.seq, both]

end Validated
