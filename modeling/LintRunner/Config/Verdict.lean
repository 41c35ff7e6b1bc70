import LintRunner.Config.Complaint

/-!
The outcome of checking a value. Parts are checked one by one, and whatever is wrong with any of them
is reported together, in the order in which the parts were checked.
-/

namespace LintRunner.Config

inductive Verdict (α : Type) where
  | sound (a : α)
  | faulty (found : List Located)

namespace Verdict

variable {α β : Type}

instance : Applicative Verdict where
  pure := sound
  seq f x :=
    match f, x () with
    | sound f, sound a => sound (f a)
    | sound _, faulty found => faulty found
    | faulty found, sound _ => faulty found
    | faulty found, faulty more => faulty (found ++ more)

def refuse (c : Complaint) : Verdict α := faulty [⟨[], c⟩]

/-- A further check, which only a sound value goes through. -/
def andThen (v : Verdict α) (check : α → Verdict β) : Verdict β :=
  match v with
  | sound a => check a
  | faulty found => faulty found

def under (steps : List Step) : Verdict α → Verdict α
  | sound a => sound a
  | faulty found => faulty (found.map (·.under steps))

/-- The parts of a list, each under its place, counted from `first`. -/
def eachFrom (check : α → Verdict β) (first : Nat) : List α → Verdict (List β)
  | [] => sound []
  | a :: rest => List.cons <$> (check a).under [.index first] <*> eachFrom check (first + 1) rest

def each (check : α → Verdict β) (as : List α) : Verdict (List β) := eachFrom check 0 as

def eachKey (check : α → Verdict β) : List (String × α) → Verdict (List (String × β))
  | [] => sound []
  | (key, a) :: rest =>
    List.cons <$> (((key, ·) <$> check a).under [.key key]) <*> eachKey check rest

end Verdict

end LintRunner.Config
