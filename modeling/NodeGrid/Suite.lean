/-!
# Test suites

What is fed into the input ports of a network and what is expected on its
output ports.  Ports are numbered from zero.
-/

namespace NodeGrid

/-- Values by port, in ascending order of the ports. -/
structure PortTable where
  entries : List (Nat × List Int64)
deriving DecidableEq

namespace PortTable

/-- A table without ports. -/
def empty : PortTable := ⟨[]⟩

/-- The entries with that of `port` replaced by what `change` makes of it. -/
def alterEntries (port : Nat) (change : Option (List Int64) → List Int64) :
    List (Nat × List Int64) → List (Nat × List Int64)
  | [] => [(port, change none)]
  | (first, values) :: rest =>
    if port < first then (port, change none) :: (first, values) :: rest
    else if port = first then (first, change (some values)) :: rest
    else (first, values) :: alterEntries port change rest

/-- Replaces the values of a port. -/
def insert (table : PortTable) (port : Nat) (values : List Int64) : PortTable :=
  ⟨alterEntries port (fun _ => values) table.entries⟩

/-- Adds values to those of a port. -/
def append (table : PortTable) (port : Nat) (values : List Int64) : PortTable :=
  ⟨alterEntries port (fun previous => previous.getD [] ++ values) table.entries⟩

/-- The values of a port that has an entry. -/
def find? (table : PortTable) (port : Nat) : Option (List Int64) :=
  table.entries.lookup port

/-- The values of a port; none without an entry. -/
def values (table : PortTable) (port : Nat) : List Int64 :=
  (table.find? port).getD []

end PortTable

/-- Values to feed in and values to expect. -/
structure Suite where
  inputs : PortTable
  outputs : PortTable
deriving DecidableEq

end NodeGrid
