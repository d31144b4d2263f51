import Chronicle.Filter.Predicate
import Chronicle.Query.AsOf
import Chronicle.Store.Answer

/-!
# Matching a filter

Which of some entities a filter lets pass, by their state at a timestamp.

* `Filter.query`: the query on the live table, its conditions next to each other;
* `Filter.matching`: the numbers it answers with when it is read as of the timestamp.
-/

namespace Chronicle

open Chronicle.Calendar

namespace Filter

/-- The numbers of the entities that pass, among those with certain numbers. -/
def query (f : Filter) (ids : List Value) (clock : Instant) : Except Failure Query := do
  let id : ColumnRef := ⟨f.kind.table.name, "id"⟩
  let conditions ← f.predicates clock
  let among ← Predicate.among id (.list ids) false
  let q ← Query.build (.text f.kind.table.name)
  return (q.filterBy (conditions ++ [among])).selecting [← Projection.buildColumn id .null]

/-- The numbers of the entities that pass at a timestamp, by a single query however many are asked
for. -/
def matching (f : Filter) (ids : List Value) (timestamp : Value) (moment : Option Moment)
    (clock : Instant) : Action (List Scalar) := do
  let live ← liftM (f.query ids clock)
  (← liftM (live.asOfTimestamp timestamp moment clock)).runIds

end Filter

end Chronicle
