import LinkQuality.Failure
import LinkQuality.Metric.Sample

/-!
# Records a store can key

Every row of a store needs the node it is about. Nothing else is asked of a record: a single
value out of range would otherwise fail each attempt at its batch, and take the sound records of
the batch down with it.
-/

namespace LinkQuality.Record

/-- The one fault a record can have. -/
def missingNode : Failure := ⟨"record has empty node_id", []⟩

/-- **Can a store key the record?** -/
def check (r : Record) : Except Failure Unit :=
  if r.node = "" then .error missingNode else .ok ()

end LinkQuality.Record
