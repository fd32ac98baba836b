/-!
# Tables by name

A finite map from names, kept as a list in ascending order of the names – code point by code
point – so that listing it needs no further sorting.
-/

namespace LinkQuality

/-- **A table with one entry per name**, in order of the names. -/
abbrev NameTable (α : Type) : Type := List (String × α)

namespace NameTable

variable {α : Type}

/-- The entry under a name. -/
def get? (name : String) : NameTable α → Option α
  | [] => none
  | (n, a) :: rest => if n = name then some a else get? name rest

/-- Changes the entry under a name; a new one starts from `start`. -/
def update (name : String) (start : α) (f : α → α) : NameTable α → NameTable α
  | [] => [(name, f start)]
  | (n, a) :: rest =>
    if name < n then (name, f start) :: (n, a) :: rest
    else if n = name then (n, f a) :: rest
    else (n, a) :: update name start f rest

/-- Puts an entry under a name. -/
def insert (name : String) (a : α) (t : NameTable α) : NameTable α := update name a (fun _ => a) t

/-- The names, in order. -/
def names (t : NameTable α) : List String := t.map (·.1)

end NameTable

end LinkQuality
