import CallersFirst.Toml.Value

/-! Tables under construction, and the rules on what may be added to them. -/

namespace CallersFirst.Toml

/-- How a table came to be. -/
inductive Origin where
  /-- By a header of its own. -/
  | header
  /-- As a step of the header of a table inside it. -/
  | implied
  /-- As a step of a dotted key. -/
  | dotted
deriving DecidableEq, Repr

/-- What a key stands for while its table is under construction. -/
inductive Item where
  /-- A value, which is complete. -/
  | value (content : Value)
  /-- A table that may still grow. -/
  | table (origin : Origin) (items : List (String × Item))
  /-- An array of tables, latest first, of which the latest may still grow. -/
  | tables (elements : List (List (String × Item)))
deriving Repr

/-- The keys of a table under construction. -/
abbrev Items := List (String × Item)

/-- Gives a key that is there a new meaning. -/
def Items.replace (items : Items) (key : String) (item : Item) : Items :=
  items.map fun (name, old) => if name = key then (name, item) else (name, old)

/-- Gives a new key a meaning. -/
def Items.add? (items : Items) (key : String) (item : Item) : Option Items :=
  if (items.lookup key).isSome then none else some (items ++ [(key, item)])

/-- Changes the table at the end of a path, making the tables on the way that are missing.

A dotted key cannot reach into a table that has a header of its own, and no path leads through a
value. -/
def within (dotted : Bool) (change : Origin → Items → Option Items) :
    List String → Origin → Items → Option Items
  | [], origin, items => change origin items
  | key :: path, _, items =>
    match items.lookup key with
    | none => do
      let origin := if dotted then Origin.dotted else Origin.implied
      let inner ← within dotted change path origin []
      return items ++ [(key, .table origin inner)]
    | some (.value _) => none
    | some (.table origin inner) => do
      guard (!(dotted && origin = .header))
      let changed ← within dotted change path origin inner
      return items.replace key (.table origin changed)
    | some (.tables []) => none
    | some (.tables (latest :: earlier)) => do
      let changed ← within dotted change path .header latest
      return items.replace key (.tables (changed :: earlier))

/-- Gives a key, dotted or not, a value in a table. -/
def assign (keys : List String) (content : Value) (origin : Origin) (items : Items) : Option Items := do
  let key ← keys.getLast?
  let path := keys.dropLast
  within true
    (fun reached inner =>
      -- Dotted keys only add to tables that dotted keys have made.
      if (reached = .dotted) = path.isEmpty then none else inner.add? key (.value content))
    path origin items

/-- Opens the table of a header, which at most a header inside it may have implied before. -/
def openTable (keys : List String) (items : Items) : Option Items := do
  let key ← keys.getLast?
  within false
    (fun _ inner =>
      match inner.lookup key with
      | none => some (inner ++ [(key, .table .header [])])
      | some (.table .implied content) => some (inner.replace key (.table .header content))
      | _ => none)
    keys.dropLast .header items

/-- Opens one more table of an array of tables. -/
def openElement (keys : List String) (items : Items) : Option Items := do
  let key ← keys.getLast?
  within false
    (fun _ inner =>
      match inner.lookup key with
      | none => some (inner ++ [(key, .tables [[]])])
      | some (.tables elements) => some (inner.replace key (.tables ([] :: elements)))
      | _ => none)
    keys.dropLast .header items

mutual

/-- What a key stands for once its table is complete. -/
def Item.complete : Item → Value
  | .value content => content
  | .table _ items => .table (completeAll items)
  | .tables elements => .array (completeEach elements).reverse

/-- The entries of a complete table. -/
def completeAll : List (String × Item) → List (String × Value)
  | [] => []
  | (key, item) :: rest => (key, item.complete) :: completeAll rest

/-- The tables of a complete array, latest first. -/
def completeEach : List (List (String × Item)) → List Value
  | [] => []
  | items :: rest => .table (completeAll items) :: completeEach rest

end

end CallersFirst.Toml
