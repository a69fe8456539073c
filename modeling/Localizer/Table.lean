import Localizer.Text.Basic
/-!
# Table — values by name

A table is a list of pairs.  `collect` keeps each name at its first place with its last value, `sort` puts the names in
the order of their bytes, again with their last values.
-/
namespace Localizer
namespace Table

variable {α : Type}

def find? (name : String) : List (String × α) → Option α
  | [] => none
  | p :: ps => if p.1 == name then some p.2 else find? name ps

/-- **Give a name a value**: a name that is there keeps its place. -/
def assign (name : String) (value : α) : List (String × α) → List (String × α)
  | [] => [(name, value)]
  | p :: ps => if p.1 == name then (name, value) :: ps else p :: assign name value ps

/-- **Pairs without repeated names**: each name at its first place with its last value. -/
def collect (pairs : List (String × α)) : List (String × α) :=
  pairs.foldl (fun acc p => assign p.1 p.2 acc) []

def insert (name : String) (value : α) : List (String × α) → List (String × α)
  | [] => [(name, value)]
  | p :: ps =>
    if p.1 == name then (name, value) :: ps
    else if Text.textBefore name p.1 then (name, value) :: p :: ps
    else p :: insert name value ps

/-- **Pairs sorted by name**, each name with its last value. -/
def sort (pairs : List (String × α)) : List (String × α) :=
  pairs.foldl (fun acc p => insert p.1 p.2 acc) []

end Table
end Localizer
