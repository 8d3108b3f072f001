/-!
# Tables of settings

What a settings text describes: items under keys, in tables inside tables. A table remembers how it
came about, since that decides what may still be added to it.

* `Item`, `Entries`, `Origin` : items, and where tables come from.
* `insert` : an item under a dotted key.
* `openTable`, `openElement` : the tables that headers begin.

Only what is needed to accept and refuse the same texts is kept: the order of keys and comments are
not.
-/

namespace ScriptEngine.Toml

/-- How a table came about. -/
inductive Origin
  /-- By a header of its own. -/
  | header
  /-- By a header of a table inside it. -/
  | path
  /-- By a dotted key. -/
  | dotted
  /-- By being written in braces. Nothing can be added to it. -/
  | inline
  deriving DecidableEq, Repr

/-- An item of a settings text. -/
inductive Item
  | string (s : String)
  | integer (i : Int)
  | float (x : Float)
  | bool (b : Bool)
  /-- A date, a time or both. -/
  | moment
  | array (items : List Item)
  | table (origin : Origin) (entries : List (String × Item))
  /-- The tables of a repeated header, the oldest first. -/
  | tables (elements : List (List (String × Item)))

/-- The items of a table by their keys. -/
abbrev Entries := List (String × Item)

/-- Puts an item under a key, in place of the one that is there. -/
def put (key : String) (item : Item) : Entries → Entries
  | [] => [(key, item)]
  | (k, old) :: rest => if k == key then (k, item) :: rest else (k, old) :: put key item rest

/-- Whether a table can be added to by a dotted key. -/
def Origin.isOpen : Origin → Bool
  | path | dotted => true
  | header | inline => false

/-- Changes the table at the end of a path, which starts at a table of the given origin. Tables that
are not there yet are made. Of the tables of a repeated header the last one is meant. -/
def changeAt (dotted : Bool) (change : Origin → Entries → Option Entries) :
    Origin → List String → Entries → Option Entries
  | origin, [], entries => change origin entries
  | _, key :: keys, entries => do
    match entries.lookup key with
    | none =>
      let made := if dotted then Origin.dotted else .path
      return put key (.table made (← changeAt dotted change made keys [])) entries
    | some (.table origin inner) =>
      if origin == .inline || dotted && !origin.isOpen then none
      else return put key (.table origin (← changeAt dotted change origin keys inner)) entries
    | some (.tables elements) =>
      let last ← elements.getLast?
      let changed ← changeAt dotted change .header keys last
      return put key (.tables (elements.dropLast ++ [changed])) entries
    | some _ => none

/-- Adds an item under a key that is not there yet. A dotted key may add to tables of dotted keys
alone. -/
def insertNew (viaDots : Bool) (key : String) (item : Item) (origin : Origin) (entries : Entries) :
    Option Entries :=
  if (origin == .dotted) != viaDots then none
  else if (entries.lookup key).isSome then none
  else some (put key item entries)

/-- Adds an item under a dotted key. -/
def insert (keys : List String) (item : Item) (origin : Origin) (entries : Entries) :
    Option Entries := do
  let last ← keys.getLast?
  changeAt true (insertNew (1 < keys.length) last item) origin keys.dropLast entries

/-- Begins the table of a header in the table around it. Only one that other headers brought about
may be there already. -/
def beginTable (key : String) (_ : Origin) (entries : Entries) : Option Entries :=
  match entries.lookup key with
  | none => some (put key (.table .header []) entries)
  | some (.table .path inner) => some (put key (.table .header inner) entries)
  | some _ => none

/-- Begins another table of a repeated header in the table around it. -/
def beginElement (key : String) (_ : Origin) (entries : Entries) : Option Entries :=
  match entries.lookup key with
  | none => some (put key (.tables [[]]) entries)
  | some (.tables elements) => some (put key (.tables (elements ++ [[]])) entries)
  | some _ => none

/-- Begins the table of a header. -/
def openTable (keys : List String) (entries : Entries) : Option Entries := do
  changeAt false (beginTable (← keys.getLast?)) .header keys.dropLast entries

/-- Begins another table of a repeated header. -/
def openElement (keys : List String) (entries : Entries) : Option Entries := do
  changeAt false (beginElement (← keys.getLast?)) .header keys.dropLast entries

/-- Adds an item under a dotted key in the table of a header. -/
def insertIn (header keys : List String) (item : Item) (entries : Entries) : Option Entries :=
  changeAt false (insert keys item) .header header entries

end ScriptEngine.Toml
