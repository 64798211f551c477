import IdlDecls.Json.Basic

/-!
# TOML tables

A document fills one table: a key with a value, the heading of a table and the heading of an item of
an array of tables each lead along a path of keys. A table that stands only in the path of others is
implicit, and one that stands in the path of a key is dotted. Nothing is defined twice: a heading may
make an implicit table its own but no other, and a dotted key may go through implicit tables only.
-/

namespace IdlDecls.Toml

mutual

/-- What a key stands for. -/
inductive Node where
  /-- A closed value: a scalar, an array or an inline table. -/
  | value (value : Json)
  /-- A table that may still grow. -/
  | table (table : Table)
  /-- An array of tables, the last first. -/
  | tables (items : List Table)

/-- A table: whether it is implicit, whether it is dotted, and its entries. -/
inductive Table where
  | mk (implicit dotted : Bool) (entries : List (String × Node))

end

namespace Table

/-- A table that a heading opens. -/
def fresh : Table := .mk false false []

def implicit : Table → Bool
  | .mk implicit _ _ => implicit

def dotted : Table → Bool
  | .mk _ dotted _ => dotted

def entries : Table → List (String × Node)
  | .mk _ _ entries => entries

/-- What a key stands for in a table. -/
def get? (t : Table) (key : String) : Option Node := Entries.get? t.entries key

/-- A table with a key that stands for something. -/
def put (t : Table) (key : String) (node : Node) : Table :=
  .mk t.implicit t.dotted (Entries.insert key node t.entries)

/-- A table with the one at the end of a path changed. Tables that are missing on the path are made;
of an array of tables the last is taken. A path in front of a key makes dotted tables and goes through
no table that has a heading. -/
def update (dotted : Bool) (change : Table → Option Table) : List String → Table → Option Table
  | [], t => change t
  | key :: path, t =>
    match t.get? key with
    | none => (update dotted change path (.mk true dotted [])).map fun child => t.put key (.table child)
    | some (.value _) => none
    | some (.tables []) => none
    | some (.tables (last :: others)) =>
      (update dotted change path last).map fun last => t.put key (.tables (last :: others))
    | some (.table child) =>
      if dotted && !child.implicit then none
      else (update dotted change path child).map fun child => t.put key (.table child)

/-- A table with a value under a key that is not yet there. -/
def define (path : List String) (key : String) (value : Json) (t : Table) : Option Table :=
  update true (fun owner =>
    if owner.dotted = path.isEmpty ∨ (owner.get? key).isSome then none
    else some (owner.put key (.value value))) path t

/-- A table with a heading for the table under a key. -/
def openTable (path : List String) (key : String) (t : Table) : Option Table :=
  update false (fun owner =>
    match owner.get? key with
    | none => some (owner.put key (.table fresh))
    | some (.table child) =>
      if child.implicit && !child.dotted then
        some (owner.put key (.table (.mk false false child.entries)))
      else none
    | some _ => none) path t

/-- A table with a heading for one more item of the array of tables under a key. -/
def openItem (path : List String) (key : String) (t : Table) : Option Table :=
  update false (fun owner =>
    match owner.get? key with
    | none => some (owner.put key (.tables [fresh]))
    | some (.tables items) => some (owner.put key (.tables (fresh :: items)))
    | some _ => none) path t

end Table

mutual

/-- The value of what a key stands for. -/
def Node.toJson : Node → Json
  | .value value => value
  | .table table => table.toJson
  | .tables items => .arr (Table.listToJson items).reverse

/-- The object of a table. -/
def Table.toJson : Table → Json
  | .mk _ _ entries => .obj (Table.entriesToJson entries)

/-- The objects of tables. -/
def Table.listToJson : List Table → List Json
  | [] => []
  | t :: rest => t.toJson :: Table.listToJson rest

/-- The fields of a table. -/
def Table.entriesToJson : List (String × Node) → List (String × Json)
  | [] => []
  | (key, node) :: rest => (key, node.toJson) :: Table.entriesToJson rest

end

end IdlDecls.Toml
