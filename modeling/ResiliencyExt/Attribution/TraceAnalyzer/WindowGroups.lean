import ResiliencyExt.Foundation.Dict

set_option autoImplicit false

/-!
# Trace analyzer: grouping collectives by windows

`group_collectives_by_windows` of `trace_analyzer/fr_attribution.py`.  Every rank has a list
of collectives and a cursor in it.  A round takes the process group that most ranks are at,
and takes collectives of that group from all ranks until no rank is at one; they go into a
group of their own for each phase, or window, of the process group.

The index of a rank is kept as the collectives of the rank from it on.  The loops run on
fuel; that they end is a result (`groupCollectivesByWindows_eq_some`).
-/

namespace ResiliencyExt.Attribution.TraceAnalyzer

open Foundation

/-- `Collective`, an entry of a flight recorder dump.  The recorder writes the name and the
description of its process group. -/
structure Collective where
  fileId : List Char
  processGroup : List (List Char)
  two_le : 2 ≤ processGroup.length
  deriving DecidableEq

/-- A process group and a sub-group. -/
abbrev PgKey :=
  List Char × List Char

/-- `(collective.process_group[0], collective.process_group[1])` -/
def Collective.pgKey (c : Collective) : PgKey :=
  (c.processGroup.get ⟨0, Nat.lt_of_lt_of_le Nat.zero_lt_two c.two_le⟩,
    c.processGroup.get ⟨1, c.two_le⟩)

/-- `collectives_by_file`: what `process_file` has read of each rank. -/
structure CollectivesByFile where
  files : Dict (List Char) (List Collective)
  fileId_eq : ∀ e ∈ files.entries, ∀ c ∈ e.2, c.fileId = e.1

namespace CollectivesByFile

/-- `rank_indices.keys()` -/
def ranks (collectives : CollectivesByFile) : List (List Char) :=
  collectives.files.keys

/-- The collectives of a rank. -/
def trace (collectives : CollectivesByFile) (rank : List Char) : List Collective :=
  (collectives.files.get? rank).getD []

end CollectivesByFile

section MostCommon

variable {α : Type} [DecidableEq α]

/-- The more frequent of two items, the first of them when they are equally frequent. -/
def moreCommon (items : List α) (best : Option α) (item : α) : Option α :=
  match best with
  | none => some item
  | some other => if items.count other < items.count item then some item else some other

/-- `Counter(items).most_common(1)`: the first of the most frequent items. -/
def mostCommon (items : List α) : Option α :=
  items.foldl (moreCommon items) none

end MostCommon

/-- A process group with the index of one of its windows. -/
abbrev WindowKey :=
  PgKey × Nat

/-- The variables of the loop. -/
structure WindowState where
  remaining : List Char → List Collective
  pgWindowCounter : PgKey → Nat
  pgWindowParticipants : WindowKey → List (List Char)
  pgsWithActiveRanksLastIter : List PgKey
  matchedGroups : Dict WindowKey (List Collective)

namespace WindowState

def start (collectives : CollectivesByFile) : WindowState where
  remaining := collectives.trace
  pgWindowCounter := fun _ => 0
  pgWindowParticipants := fun _ => []
  pgsWithActiveRanksLastIter := []
  matchedGroups := Dict.empty

/-- `pgs_with_active_ranks`, and the values of `current_pg_types`. -/
def currentPgTypes (s : WindowState) (ranks : List (List Char)) : List PgKey :=
  ranks.filterMap fun rank => (s.remaining rank).head?.map Collective.pgKey

/-- The ranks that are at the process group. -/
def ranksWithCurrentPg (s : WindowState) (ranks : List (List Char)) (currentPg : PgKey) :
    List (List Char) :=
  ranks.filter fun rank => (s.remaining rank).head?.map Collective.pgKey = some currentPg

/-- The window that the round puts its collectives into. -/
def windowIdx (s : WindowState) (ranks : List (List Char)) (currentPg : PgKey) : Nat :=
  let window := s.pgWindowCounter currentPg
  let previousParticipants := s.pgWindowParticipants (currentPg, window)
  let ranksWithCurrentPg := s.ranksWithCurrentPg ranks currentPg
  let alreadyParticipated := previousParticipants.filter (· ∈ ranksWithCurrentPg)
  let newRanks := ranksWithCurrentPg.filter (· ∉ previousParticipants)
  if currentPg ∉ s.pgsWithActiveRanksLastIter ∧
      (alreadyParticipated ≠ [] ∨ previousParticipants ≠ [] ∧ 2 ≤ newRanks.length) then
    window + 1
  else window

/-- Take a collective of a rank into a window. -/
def place (s : WindowState) (rank : List Char) (c : Collective) (rest : List Collective)
    (window : WindowKey) : WindowState :=
  { s with
    remaining := Function.update s.remaining rank rest
    pgWindowParticipants := Function.update s.pgWindowParticipants window
      ((s.pgWindowParticipants window).insert rank)
    matchedGroups := s.matchedGroups.alter window [] (· ++ [c]) }

/-- The body of the loop over the ranks, with `has_matches`. -/
def takeNext (window : WindowKey) (acc : WindowState × Bool) (rank : List Char) :
    WindowState × Bool :=
  match acc.1.remaining rank with
  | [] => acc
  | c :: rest => if c.pgKey = window.1 then (acc.1.place rank c rest window, true) else acc

/-- `while has_matches` -/
def takeWindow (ranks : List (List Char)) (window : WindowKey) :
    Nat → WindowState → Option WindowState
  | 0, _ => none
  | fuel + 1, s =>
    let swept := ranks.foldl (takeNext window) (s, false)
    if swept.2 then takeWindow ranks window fuel swept.1 else some swept.1

/-- The round for a process group. -/
def round (fuel : Nat) (ranks : List (List Char)) (s : WindowState) (currentPg : PgKey) :
    Option WindowState := do
  let window := s.windowIdx ranks currentPg
  let taken ← takeWindow ranks (currentPg, window) fuel
    { s with pgWindowCounter := Function.update s.pgWindowCounter currentPg window }
  return { taken with pgsWithActiveRanksLastIter := taken.currentPgTypes ranks }

/-- `while any(...)`: rounds until all ranks have come to the end of their collectives. -/
def rounds (fuel : Nat) (ranks : List (List Char)) : Nat → WindowState → Option WindowState
  | 0, _ => none
  | n + 1, s =>
    if ranks.all fun rank => (s.remaining rank).isEmpty then some s
    else
      match mostCommon (s.currentPgTypes ranks) with
      | none => some s
      | some currentPg => (s.round fuel ranks currentPg).bind (rounds fuel ranks n)

end WindowState

/-- `group_collectives_by_windows`, with the fuel of its loops. -/
def groupCollectivesByWindows (fuel : Nat) (collectives : CollectivesByFile) :
    Option (Dict WindowKey (List Collective)) :=
  (WindowState.rounds fuel collectives.ranks fuel (.start collectives)).map
    WindowState.matchedGroups

end ResiliencyExt.Attribution.TraceAnalyzer
