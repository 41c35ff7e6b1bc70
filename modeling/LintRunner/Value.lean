/-!
Values as a configuration holds them. Tables keep the order in which their keys were written.
-/

namespace LintRunner

inductive Value where
  | absent
  | bool (b : Bool)
  | int (n : Int)
  | float (x : Rat)
  /-- An infinite number, or what is no number at all. -/
  | notFinite
  | string (s : String)
  | moment (text : String)
  | list (items : List Value)
  | table (entries : List (String × Value))

abbrev Table := List (String × Value)

namespace Table

def has (t : Table) (key : String) : Bool := (t.lookup key).isSome

def replace (t : Table) (key : String) (v : Value) : Table :=
  t.map fun e => if e.1 = key then (key, v) else e

/-- Sets a key. A key that is there already keeps its place. -/
def put (t : Table) (key : String) (v : Value) : Table :=
  if t.has key then t.replace key v else t ++ [(key, v)]

def add? (key : String) (v : Value) (t : Table) : Option Table :=
  if t.has key then none else some (t ++ [(key, v)])

/-- Changes the table that `keys` lead to. Tables that are missing on the way are made; a list on
the way stands for its last member if `throughLists` is set. -/
def change? (throughLists : Bool) (f : Table → Option Table) : List String → Table → Option Table
  | [], t => f t
  | key :: rest, t =>
    match t.lookup key with
    | none => (change? throughLists f rest []).map fun inner => t ++ [(key, .table inner)]
    | some (.table inner) =>
      (change? throughLists f rest inner).map fun inner => t.replace key (.table inner)
    | some (.list items) =>
      match throughLists, items.getLast? with
      | true, some (.table inner) =>
        (change? throughLists f rest inner).map fun inner =>
          t.replace key (.list (items.dropLast ++ [.table inner]))
      | _, _ => none
    | some _ => none

end Table

end LintRunner
