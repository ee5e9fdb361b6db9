/-! Entries by key, each key once: listed by ascending key, or in the order they were made. -/
namespace PackEngine

/-- Adds an entry in key order; a repeated key keeps the last value. -/
def insertSorted [Ord κ] (key : κ) (value : α) : List (κ × α) → List (κ × α)
  | [] => [(key, value)]
  | (k, v) :: rest =>
      match compare key k with
      | .lt => (key, value) :: (k, v) :: rest
      | .eq => (key, value) :: rest
      | .gt => (k, v) :: insertSorted key value rest

/-- Changes the entry of a key in its place, or adds one at the end. -/
def putEntry [BEq κ] (key : κ) (value : α) : List (κ × α) → List (κ × α)
  | [] => [(key, value)]
  | (k, v) :: rest => if k == key then (k, value) :: rest else (k, v) :: putEntry key value rest

def valueAt? [BEq κ] (key : κ) (entries : List (κ × α)) : Option α :=
  (entries.find? (·.1 == key)).map (·.2)

end PackEngine
